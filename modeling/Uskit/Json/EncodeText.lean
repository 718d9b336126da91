import Uskit.Json.Encode

namespace Uskit.Json

/-! The text of a value has no NUL if the printing of doubles writes none. -/

theorem hexDigit_ne_nul {digit : Nat} (hdigit : digit < 16) :
    hexDigit digit ≠ '\x00' := by
  revert digit
  decide

theorem writeChar_free (c : Char) : '\x00' ∉ writeChar c := by
  unfold writeChar
  split
  case h_8 =>
    split
    · rename_i hcontrol
      have hhigh := hexDigit_ne_nul (show c.toNat / 16 < 16 by omega)
      have hlow := hexDigit_ne_nul (show c.toNat % 16 < 16 by omega)
      simp [hhigh.symm, hlow.symm]
    · rename_i hplain
      rw [List.mem_singleton]
      rintro rfl
      exact hplain (by decide)
  all_goals decide

theorem writeString_free (text : String) : '\x00' ∉ (writeString text).toList := by
  rw [writeString, String.toList_ofList, List.cons_append, List.mem_cons, List.mem_append,
    List.mem_flatMap, List.mem_singleton]
  rintro (hquote | ⟨c, -, hc⟩ | hquote)
  · revert hquote
    decide
  · exact writeChar_free c hc
  · revert hquote
    decide

theorem repr_free (value : Nat) : '\x00' ∉ value.repr.toList := by
  rw [Nat.toList_repr]
  intro hmem
  have hdigit := Nat.isDigit_of_mem_toDigits (by decide) (by decide) hmem
  revert hdigit
  decide

theorem toString_free (value : Int) : '\x00' ∉ (toString value).toList := by
  rw [Int.toString_eq_repr, Int.repr_eq_if]
  split
  · exact repr_free _
  · rw [String.toList_append, List.mem_append, not_or]
    exact ⟨by decide, repr_free _⟩

theorem Written.put_free {written : Written} {text : String}
    (hwritten : '\x00' ∉ written.text.toList) (htext : '\x00' ∉ text.toList) :
    '\x00' ∉ (written.put text).text.toList := by
  unfold Written.put
  split
  · rw [String.toList_append, List.mem_append, not_or]
    exact ⟨hwritten, htext⟩
  · exact hwritten

theorem Written.comma_free (first : Bool) {written : Written}
    (hwritten : '\x00' ∉ written.text.toList) :
    '\x00' ∉ (if first then written else written.put ",").text.toList := by
  split
  · exact hwritten
  · exact put_free hwritten (by decide)

section Write

/-- No printed double has a NUL. -/
def PrintsFree (dtoa : Double → String) : Prop :=
  ∀ value, '\x00' ∉ (dtoa value).toList

variable {dtoa : Double → String}

theorem writeNumber_free (hdtoa : PrintsFree dtoa) (value : Number) {written : Written}
    (hwritten : '\x00' ∉ written.text.toList) :
    '\x00' ∉ (writeNumber dtoa written value).text.toList := by
  cases value with
  | int value => exact Written.put_free hwritten (toString_free value)
  | double value =>
      rw [writeNumber]
      split
      · exact hwritten
      · exact Written.put_free hwritten (hdtoa value)

mutual
theorem write_free (hdtoa : PrintsFree dtoa) :
    ∀ (value : Json) {written : Written},
    '\x00' ∉ written.text.toList → '\x00' ∉ (write dtoa value written).text.toList
  | .null, _, hwritten => by
      rw [write]
      exact Written.put_free hwritten (by decide)
  | .bool true, _, hwritten => by
      rw [write]
      exact Written.put_free hwritten (by decide)
  | .bool false, _, hwritten => by
      rw [write]
      exact Written.put_free hwritten (by decide)
  | .number value, _, hwritten => by
      rw [write]
      exact writeNumber_free hdtoa value hwritten
  | .string text, _, hwritten => by
      rw [write]
      exact Written.put_free hwritten (writeString_free text)
  | .array elements, _, hwritten => by
      rw [write]
      have hopen := Written.put_free hwritten (show '\x00' ∉ "[".toList by decide)
      exact Written.put_free (writeElements_free hdtoa elements true hopen) (by decide)
  | .object members, _, hwritten => by
      rw [write]
      have hopen := Written.put_free hwritten (show '\x00' ∉ "\x7b".toList by decide)
      exact Written.put_free (writeMembers_free hdtoa members true hopen) (by decide)

theorem writeElements_free (hdtoa : PrintsFree dtoa) :
    ∀ (elements : List Json) (first : Bool) {written : Written},
    '\x00' ∉ written.text.toList →
      '\x00' ∉ (writeElements dtoa elements first written).text.toList
  | [], _, _, hwritten => by
      rw [writeElements]
      exact hwritten
  | value :: rest, first, written, hwritten => by
      rw [writeElements]
      have hcomma := Written.comma_free first hwritten
      exact writeElements_free hdtoa rest false (write_free hdtoa value hcomma)

theorem writeMembers_free (hdtoa : PrintsFree dtoa) :
    ∀ (members : List (String × Json)) (first : Bool) {written : Written},
    '\x00' ∉ written.text.toList →
      '\x00' ∉ (writeMembers dtoa members first written).text.toList
  | [], _, _, hwritten => by
      rw [writeMembers]
      exact hwritten
  | (name, value) :: rest, first, written, hwritten => by
      rw [writeMembers]
      have hcomma := Written.comma_free first hwritten
      have hname : '\x00' ∉ (writeString name ++ ":").toList := by
        rw [String.toList_append, List.mem_append, not_or]
        exact ⟨writeString_free name, by decide⟩
      exact writeMembers_free hdtoa rest false
        (write_free hdtoa value (Written.put_free hcomma hname))
end

theorem encode_free (hdtoa : PrintsFree dtoa) (value : Json) :
    '\x00' ∉ (encode dtoa value).toList :=
  write_free hdtoa value (by decide)

end Write

end Uskit.Json
