import Uskit.Function.TypeSafety
import Uskit.Json.DoubleText

namespace Uskit.Function

/-! `json_encode` and `json_decode`, one after the other. -/

section JsonText

variable {host : Host} {reread : Double → Double}

theorem callFunction_jsonEncode (value : Json) :
    callFunction host "json_encode" [value] = .ok (.string (value.encode host.dtoa)) := by
  rw [callFunction_eq]
  rfl

theorem callFunction_jsonDecode (text : String) :
    callFunction host "json_decode" [.string text] =
      match host.parseJson (cStr text) with
      | some document => .ok document
      | none => .failed := by
  rw [callFunction_eq]
  rfl

theorem decode_encode (hparse : host.parseJson = parseJson)
    (hreads : Json.Reads host.dtoa reread) {value : Json} (hfits : value.intsFit) :
    callFunction host "json_decode" [.string (value.encode host.dtoa)] =
      if value.finite then .ok (value.shown reread) else .failed := by
  have hread := Json.parse_encode (Json.legible_of_reads hreads hfits)
  rw [parseJson] at hread
  rw [callFunction_jsonDecode, hparse, parseJson, cStr_eq_self (cStr_free _), hread]
  cases value.finite <;> rfl

/-- What `json_encode` returns is decoded to the value, with its doubles as they are
read back, unless a double is infinite or not a number. -/
theorem jsonDecode_jsonEncode (hparse : host.parseJson = parseJson)
    (hreads : Json.Reads host.dtoa reread) {value : Json} (hfits : value.intsFit)
    {text : String} (hencode : callFunction host "json_encode" [value] = .ok (.string text)) :
    callFunction host "json_decode" [.string text] =
      if value.finite then .ok (value.shown reread) else .failed := by
  rw [callFunction_jsonEncode] at hencode
  cases hencode
  exact decode_encode hparse hreads hfits

def Host.reading : Host :=
  { Host.bare with parseJson := Uskit.parseJson }

theorem reads_reading : Json.Reads Host.reading.dtoa fun _ => Double.zero false := by
  intro value _
  have hzero : Json.Reader.parseNumber "0.0".toList =
      some (.double (Double.zero false), []) := by
    decide +kernel
  exact hzero

theorem jsonDecode_jsonEncode_mixed :
    callFunction Host.reading "json_decode" [.string "[-3,\"\\n\",0.0,null]"] =
      .ok (.array [.number (.int (-3)), .string "\n", .number (.double (Double.zero false)),
        .null]) := by
  let value : Json := .array
    [.number (.int (-3)), .string "\n", .number (.double (Double.zero false)), .null]
  have hencode : callFunction Host.reading "json_encode" [value] =
      .ok (.string "[-3,\"\\n\",0.0,null]") := by
    rw [callFunction_jsonEncode]
    decide +kernel
  have hfits : value.intsFit := by decide
  rw [jsonDecode_jsonEncode rfl reads_reading hfits hencode]
  decide +kernel

/-- What `json_decode` accepts is encoded and decoded again without loss but in doubles,
unless a number of the text was too large for a finite double. -/
theorem jsonEncode_jsonDecode (hparse : host.parseJson = parseJson)
    (hreads : Json.Reads host.dtoa reread) {text : String} {value : Json}
    (hdecode : callFunction host "json_decode" [.string text] = .ok value) :
    ∃ encoded, callFunction host "json_encode" [value] = .ok (.string encoded) ∧
      callFunction host "json_decode" [.string encoded] =
        if value.finite then .ok (value.shown reread) else .failed := by
  refine ⟨_, callFunction_jsonEncode value, ?_⟩
  apply decode_encode hparse hreads
  rw [callFunction_jsonDecode, hparse] at hdecode
  cases hread : parseJson (cStr text) with
  | none =>
      rw [hread] at hdecode
      cases hdecode
  | some found =>
      rw [hread] at hdecode
      cases hdecode
      exact Json.intsFit_of_parse hread

theorem jsonEncode_jsonDecode_spaced :
    ∃ encoded, callFunction Host.reading "json_encode" [.array [.bool true]] =
        .ok (.string encoded) ∧
      callFunction Host.reading "json_decode" [.string encoded] =
        .ok (.array [.bool true]) := by
  have hdecode : callFunction Host.reading "json_decode" [.string " [ true ] "] =
      .ok (.array [.bool true]) := by
    rw [callFunction_jsonDecode]
    decide +kernel
  exact jsonEncode_jsonDecode rfl reads_reading hdecode

/-- With the writer's own text of a double every finite value is decoded, and to itself if
the texts of its doubles are short. -/
theorem jsonDecode_jsonEncode_dtoa (hparse : host.parseJson = parseJson)
    (hdtoa : host.dtoa = dtoa) {value : Json} (hfits : value.intsFit)
    (hfinite : value.finite = true) :
    ∃ text back, callFunction host "json_encode" [value] = .ok (.string text) ∧
      callFunction host "json_decode" [.string text] = .ok back ∧
      back = value.shown Dtoa.reread ∧
      ((∀ d, .double d ∈ value.numbers → Dtoa.ShortText d) → back = value) := by
  have hreads : Json.Reads host.dtoa Dtoa.reread := by
    rw [hdtoa]
    exact Dtoa.reads_dtoa
  have hdecode := decode_encode hparse hreads hfits
  rw [hfinite, if_pos rfl] at hdecode
  exact ⟨_, _, callFunction_jsonEncode value, hdecode, rfl, Json.shown_of_short hfinite⟩

/-- Reader and writer of one repository. -/
def Host.printing : Host :=
  { Host.reading with dtoa := Uskit.dtoa }

theorem jsonDecode_jsonEncode_dtoa_tenth :
    callFunction Host.printing "json_decode" [.string "[0.1]"] =
      .ok (.array [.number (.double ⟨0x3FB999999999999A⟩)]) := by
  let value : Json := .array [.number (.double ⟨0x3FB999999999999A⟩)]
  have hfits : value.intsFit := by decide
  have hfinite : value.finite = true := by decide
  have hprinting : Host.printing.parseJson = parseJson ∧ Host.printing.dtoa = dtoa := ⟨rfl, rfl⟩
  obtain ⟨text, back, hencode, hdecode, -, hback⟩ :=
    jsonDecode_jsonEncode_dtoa hprinting.1 hprinting.2 hfits hfinite
  have htenth : (dtoa ⟨0x3FB999999999999A⟩).toList = ['0'] ++ (['.', '1'] ++ []) := by
    decide +kernel
  have hshort : ∀ d, .double d ∈ value.numbers → Dtoa.ShortText d := by
    intro d hd
    cases List.mem_singleton.mp hd
    refine ⟨1, -1, ?_, by decide, by decide, by decide⟩
    rw [htenth]
    exact ⟨_, ['1'], _, 0, _, rfl, .inl rfl, .inr ⟨⟨'1', [], rfl, by decide, nofun⟩, rfl⟩,
      .inl ⟨by decide, rfl, rfl⟩, by decide, by decide⟩
  have htext : text = "[0.1]" := by
    have hwritten : callFunction Host.printing "json_encode" [value] =
        .ok (.string "[0.1]") := by
      rw [callFunction_jsonEncode]
      decide +kernel
    rw [hwritten] at hencode
    cases hencode
    rfl
  rw [htext, hback hshort] at hdecode
  exact hdecode

end JsonText

end Uskit.Function
