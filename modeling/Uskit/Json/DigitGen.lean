import Uskit.Json.Decimal
import Uskit.Json.Dtoa

namespace Uskit

/-! The digits that `DigitGen` makes stay within `delta` below the upper boundary. -/

namespace Dtoa

open DiyFp Json.Reader Uskit.Grammar.Reader

/-! The buffer. -/

theorem digitChar_digit : ∀ d < 10, isDigit (digitChar d) = true ∧ digit (digitChar d) = d := by
  decide

theorem digitChar_decrement : ∀ d < 9, Char.ofNat ((digitChar (d + 1)).toNat - 1) = digitChar d := by
  decide

/-- Digits without a zero in front. -/
def Leads (buffer : List Char) : Prop :=
  buffer ∈ headed isNonzero isDigit

theorem isNonzero_digitChar {d : Nat} (hpos : 0 < d) (hless : d < 10) :
    isNonzero (digitChar d) = true := by
  obtain ⟨hdigit, hvalue⟩ := digitChar_digit d hless
  rw [isNonzero, hdigit, Bool.and_true, bne_iff_ne]
  intro hzero
  rw [hzero] at hvalue
  rw [← hvalue] at hpos
  exact absurd hpos (by decide)

theorem decimal_push (buffer : List Char) {d : Nat} (hless : d < 10) :
    decimal (buffer ++ [digitChar d]) 0 = decimal buffer 0 * 10 + d := by
  rw [decimal_append, decimal_cons, (digitChar_digit d hless).2]
  rfl

theorem Leads.push {buffer : List Char} (hleads : Leads buffer) {d : Nat} (hless : d < 10) :
    Leads (buffer ++ [digitChar d]) := by
  obtain ⟨c, rest, rfl, hc, hrest⟩ := hleads
  refine ⟨c, rest ++ [digitChar d], rfl, hc, ?_⟩
  intro x hx
  rcases List.mem_append.mp hx with hx | hx
  · exact hrest x hx
  · rw [List.mem_singleton.mp hx]
    exact (digitChar_digit d hless).1

theorem leads_first {d : Nat} (hpos : 0 < d) (hless : d < 10) : Leads [digitChar d] :=
  ⟨digitChar d, [], rfl, isNonzero_digitChar hpos hless, nofun⟩

theorem mul_pow_le_decimal (word : List Char) (i : Nat) :
    i * 10 ^ word.length ≤ decimal word i := by
  induction word generalizing i with
  | nil => exact Nat.le_of_eq (Nat.mul_one i)
  | cons c word ih =>
      rw [decimal_cons, List.length_cons, pow_succ']
      calc i * (10 * 10 ^ word.length) = i * 10 * 10 ^ word.length := (Nat.mul_assoc _ _ _).symm
        _ ≤ (i * 10 + digit c) * 10 ^ word.length :=
            Nat.mul_le_mul_right _ (Nat.le_add_right _ _)
        _ ≤ decimal word (i * 10 + digit c) := ih _

theorem digit_pos {c : Char} (hc : isNonzero c = true) : 0 < digit c := by
  rw [isNonzero, Bool.and_eq_true, bne_iff_ne] at hc
  obtain ⟨hzero, hdigit⟩ := hc
  simp only [isDigit, Bool.and_eq_true, decide_eq_true_eq, Char.le_def,
    UInt32.le_iff_toNat_le] at hdigit
  have hzeroVal : ('0' : Char).val.toNat = 48 := rfl
  have hne : c.val.toNat ≠ 48 := by
    intro heq
    exact hzero (Char.ext (UInt32.toNat_inj.mp (heq.trans hzeroVal.symm)))
  have hval : c.toNat = c.val.toNat := rfl
  have hshift : ('0' : Char).toNat = 48 := rfl
  rw [digit, hshift, hval]
  omega

theorem pow_le_decimal {buffer : List Char} (hleads : Leads buffer) :
    10 ^ (buffer.length - 1) ≤ decimal buffer 0 := by
  obtain ⟨c, rest, rfl, hc, -⟩ := hleads
  rw [List.length_cons, Nat.add_sub_cancel, decimal_cons, Nat.zero_mul, Nat.zero_add]
  calc 10 ^ rest.length = 1 * 10 ^ rest.length := (Nat.one_mul _).symm
    _ ≤ digit c * 10 ^ rest.length := Nat.mul_le_mul_right _ (digit_pos hc)
    _ ≤ decimal rest (digit c) := mul_pow_le_decimal rest _

theorem decrement_push (front : List Char) {d : Nat} (hless : d < 9) :
    decrement (front ++ [digitChar (d + 1)]) = front ++ [digitChar d] := by
  rw [decrement, List.dropLast_concat, List.getLast?_concat, Option.map_some,
    digitChar_decrement d hless]
  rfl

/-! The rounding. -/

section Rounding

variable {delta tenKappa rest : Nat} (wpW : Nat)

/-- As long as the loop goes on, one more unit stays within `delta`. -/
theorem roundsOn_room (hdelta : delta < 2 ^ 64) (hrest : rest ≤ delta)
    (hrounds : roundsOn delta tenKappa wpW rest = true) : rest + tenKappa ≤ delta := by
  have hsubtract : subtract delta rest = delta - rest := by
    rw [subtract]
    omega
  rw [roundsOn, hsubtract] at hrounds
  simp only [Bool.and_eq_true, decide_eq_true_eq] at hrounds
  omega

/-- The last digit goes down until the loop ends by itself, and by no more than there is. -/
theorem grisuRound_eq (front : List Char) {d bound : Nat} (hless : d < 10) (hbound : d < bound)
    (hten : 0 < tenKappa) (hdelta : delta < 2 ^ 64) (hrest : rest ≤ delta)
    (hroom : delta ≤ d * tenKappa + rest) :
    ∃ down ≤ d, rest + down * tenKappa ≤ delta ∧
      grisuRound delta tenKappa wpW bound rest (front ++ [digitChar d]) =
        front ++ [digitChar (d - down)] ∧
      roundsOn delta tenKappa wpW (rest + down * tenKappa) = false := by
  induction d generalizing rest bound with
  | zero =>
      obtain ⟨bound, rfl⟩ : ∃ more, bound = more + 1 := ⟨bound - 1, by omega⟩
      have hstop : roundsOn delta tenKappa wpW rest = false := by
        by_contra hrounds
        have hmore := roundsOn_room wpW hdelta hrest (Bool.not_eq_false _ ▸ hrounds)
        omega
      refine ⟨0, Nat.le_refl _, by omega, ?_, by simpa using hstop⟩
      rw [grisuRound, hstop]
      rfl
  | succ d ih =>
      obtain ⟨bound, rfl⟩ : ∃ more, bound = more + 1 := ⟨bound - 1, by omega⟩
      rw [grisuRound]
      cases hrounds : roundsOn delta tenKappa wpW rest with
      | false => exact ⟨0, Nat.zero_le _, by omega, rfl, by simpa using hrounds⟩
      | true =>
          have hmore := roundsOn_room wpW hdelta hrest hrounds
          have hstep : (d + 1) * tenKappa = d * tenKappa + tenKappa := Nat.succ_mul _ _
          obtain ⟨down, hdown, hwithin, hrounded, hstop⟩ :=
            ih (by omega) (show d < bound by omega) hmore (by omega)
          have hsum : rest + tenKappa + down * tenKappa = rest + (down + 1) * tenKappa := by
            rw [Nat.succ_mul]
            omega
          rw [hsum] at hwithin hstop
          refine ⟨down + 1, by omega, hwithin, ?_, hstop⟩
          rw [if_pos rfl, Nat.mod_eq_of_lt (by omega), decrement_push front (by omega), hrounded,
            Nat.add_sub_add_right]

end Rounding

/-! What a turn comes to, in which digit `d` of `unit` is made out of `total`. -/

section Turn

variable {front : List Char} {d total unit rest delta : Nat}

/-- The digits are rounded within `delta`. -/
structure Rounded (total unit delta length : Nat) (buffer : List Char) : Prop where
  leads : Leads buffer
  length_eq : buffer.length = length + 1
  low : total - delta ≤ decimal buffer 0 * unit
  high : decimal buffer 0 * unit ≤ total

theorem rounded_of_stop (wpW : Nat) (hless : d < 10) (hunit : 0 < unit) (hdelta : delta < 2 ^ 64)
    (htotal : (decimal front 0 * 10 + d) * unit + rest = total) (hrest : rest ≤ delta)
    (hroom : delta ≤ d * unit + rest)
    (hleads : Leads front ∨ front = [] ∧ delta < d * unit + rest) :
    Rounded total unit delta front.length
      (grisuRound delta unit wpW 10 rest (front ++ [digitChar d])) := by
  obtain ⟨down, hdown, hwithin, hrounded, -⟩ :=
    grisuRound_eq wpW front hless hless hunit hdelta hrest hroom
  rw [hrounded]
  have hvalue : decimal (front ++ [digitChar (d - down)]) 0 * unit + down * unit + rest =
      total := by
    rw [decimal_push front (by omega), ← htotal, ← Nat.add_mul]
    congr 2
    omega
  refine ⟨?_, by simp, by omega, by omega⟩
  rcases hleads with hleads | ⟨rfl, hstrict⟩
  · exact hleads.push (by omega)
  · have hless : down < d := Nat.lt_of_mul_lt_mul_right (a := unit) (by omega)
    exact leads_first (by omega) (by omega)

/-- Not many digits go by before what is left of them is less than `delta`. -/
theorem length_le (hleads : Leads front) (htotal : decimal front 0 * unit ≤ total)
    (hdelta : delta < unit) (hratio : total ≤ 10 ^ 16 * delta) : front.length ≤ 16 := by
  by_contra hlong
  have hpow := pow_le_decimal hleads
  have hmono : 10 ^ 16 ≤ 10 ^ (front.length - 1) := Nat.pow_le_pow_right (by decide) (by omega)
  have hless : 10 ^ 16 * delta < 10 ^ 16 * unit := Nat.mul_lt_mul_of_pos_left hdelta (by decide)
  have hle : 10 ^ 16 * unit ≤ decimal front 0 * unit :=
    Nat.mul_le_mul_right _ (hmono.trans hpow)
  omega

end Turn

/-! The loops. -/

section Loops

/-- Multiples of powers of ten, within `delta` below `M`. -/
structure Generates (M delta shift : Nat) (K : Int) (result : List Char × Int) : Prop where
  leads : Leads result.1
  short : result.1.length ≤ 17
  within : ∃ up down : Nat, result.2 = K + up - down ∧
    (M - delta) * 10 ^ down ≤ decimal result.1 0 * (10 ^ up * 2 ^ shift) ∧
    decimal result.1 0 * (10 ^ up * 2 ^ shift) ≤ M * 10 ^ down

variable {M delta shift wpW : Nat} {K : Int} (hshift : shift ≤ 60)
  (hratio : M ≤ 10 ^ 16 * delta)

include hshift hratio

theorem fractionDigits_generates {bound index p2 scaled : Nat} {buffer : List Char}
    (hleads : Leads buffer) (hM : decimal buffer 0 * 2 ^ shift + p2 = M * 10 ^ index)
    (hp2 : p2 < 2 ^ shift) (hscaled : scaled = delta * 10 ^ index) (hgoing : scaled ≤ p2)
    (hbound : 2 ^ shift < scaled * 10 ^ bound) :
    Generates M delta shift K (fractionDigits shift wpW K bound index p2 scaled buffer) := by
  induction bound generalizing index p2 scaled buffer with
  -- By then `delta` has grown over the unit, so that the loop has stopped before.
  | zero => omega
  | succ bound ih =>
      have hone : 2 ^ shift ≤ 2 ^ 60 := Nat.pow_le_pow_right (by decide) hshift
      have hnonempty : buffer ≠ [] := by
        obtain ⟨c, rest, rfl, -⟩ := hleads
        exact List.cons_ne_nil c rest
      have hless : p2 * 10 / 2 ^ shift < 10 := Nat.div_lt_of_lt_mul (by omega)
      have hsplit := Nat.div_add_mod' (p2 * 10) (2 ^ shift)
      have htotal : (decimal buffer 0 * 10 + p2 * 10 / 2 ^ shift) * 2 ^ shift +
          p2 * 10 % 2 ^ shift = M * 10 ^ (index + 1) := by
        rw [pow_succ, ← Nat.mul_assoc, ← hM, Nat.add_mul, Nat.add_mul, Nat.add_assoc, hsplit,
          Nat.mul_right_comm]
      have hgrown : scaled * 10 = delta * 10 ^ (index + 1) := by
        rw [hscaled, pow_succ, Nat.mul_assoc]
      have hshort : buffer.length ≤ 16 := by
        refine length_le hleads (Nat.le_of_add_right_le hM.le) (hgoing.trans_lt hp2) ?_
        rw [hscaled, ← Nat.mul_assoc]
        exact Nat.mul_le_mul_right _ hratio
      rw [fractionDigits]
      simp only [Nat.mod_eq_of_lt (show p2 * 10 < 2 ^ 64 by omega),
        Nat.mod_eq_of_lt (show scaled * 10 < 2 ^ 64 by omega), pushDigit, hnonempty, ne_eq,
        not_false_eq_true, or_true, if_true]
      generalize p2 * 10 / 2 ^ shift = d at hless hsplit htotal
      have hrest : p2 * 10 % 2 ^ shift < 2 ^ shift := Nat.mod_lt _ (Nat.two_pow_pos _)
      generalize p2 * 10 % 2 ^ shift = rest at hrest hsplit htotal
      split
      case isTrue hstop =>
        have hrounded := rounded_of_stop
          (wpW * (if index + 1 < 9 then 10 ^ (index + 1) else 0) % 2 ^ 64) hless
          (Nat.two_pow_pos shift) (by omega) htotal hstop.le (by omega) (.inl hleads)
        refine ⟨hrounded.leads, hrounded.length_eq.trans_le (by omega), 0, index + 1, ?_, ?_, ?_⟩
        · push_cast
          omega
        · rw [Nat.sub_mul, ← hgrown, pow_zero, Nat.one_mul]
          exact hrounded.low
        · rw [pow_zero, Nat.one_mul]
          exact hrounded.high
      case isFalse hgo =>
        refine ih (hleads.push hless) ?_ hrest hgrown (by omega) ?_
        · rw [decimal_push _ hless, htotal]
        · rwa [Nat.mul_assoc, ← pow_succ']

theorem integralDigits_generates {kappa p1 p2 : Nat} {buffer : List Char}
    (hbuffer : buffer = [] ∨ Leads buffer)
    (hM : decimal buffer 0 * (10 ^ kappa * 2 ^ shift) + (p1 * 2 ^ shift + p2) = M)
    (hp1 : p1 < 10 ^ kappa) (hp2 : p2 < 2 ^ shift) (hgoing : delta < p1 * 2 ^ shift + p2)
    (hfits : M < 2 ^ 64) (hone : 2 ^ shift ≤ M) :
    Generates M delta shift K (integralDigits shift wpW delta p2 K kappa p1 buffer) := by
  induction kappa generalizing p1 buffer with
  | zero =>
      obtain rfl : p1 = 0 := by omega
      rw [Nat.zero_mul, Nat.zero_add] at hgoing hM
      rw [pow_zero, Nat.one_mul] at hM
      have hleads : Leads buffer := by
        refine hbuffer.resolve_left ?_
        rintro rfl
        rw [decimal, Nat.ofDigitChars_nil, Nat.zero_mul] at hM
        omega
      refine fractionDigits_generates hshift hratio hleads (by rw [hM, pow_zero, Nat.mul_one]) hp2
        (by rw [pow_zero, Nat.mul_one]) hgoing.le ?_
      have hsmall : 2 ^ shift ≤ 2 ^ 60 := Nat.pow_le_pow_right (by decide) hshift
      omega
  | succ kappa ih =>
      have hless : p1 / 10 ^ kappa < 10 := Nat.div_lt_of_lt_mul (by rwa [← pow_succ])
      have hsplit := Nat.div_add_mod' p1 (10 ^ kappa)
      have hrest : p1 % 10 ^ kappa < 10 ^ kappa := Nat.mod_lt _ (Nat.pow_pos (by decide))
      rw [integralDigits]
      generalize p1 / 10 ^ kappa = d at hless hsplit
      generalize p1 % 10 ^ kappa = rest at hrest hsplit
      have hunits : p1 * 2 ^ shift + p2 =
          d * (10 ^ kappa * 2 ^ shift) + (rest * 2 ^ shift + p2) := by
        rw [← hsplit]
        ring
      have htotal : (decimal buffer 0 * 10 + d) * (10 ^ kappa * 2 ^ shift) +
          (rest * 2 ^ shift + p2) = M := by
        rw [← hM, hunits]
        ring
      have hsmaller : delta < 10 ^ (kappa + 1) * 2 ^ shift := by
        have hle : (p1 + 1) * 2 ^ shift ≤ 10 ^ (kappa + 1) * 2 ^ shift :=
          Nat.mul_le_mul_right _ hp1
        rw [Nat.succ_mul] at hle
        omega
      rw [hunits] at hgoing
      have htmp : (shiftLeft rest shift + p2) % 2 ^ 64 = rest * 2 ^ shift + p2 := by
        rw [shiftLeft, Nat.mod_eq_of_lt (show rest * 2 ^ shift < 2 ^ 64 by omega)]
        exact Nat.mod_eq_of_lt (by omega)
      simp only [htmp]
      by_cases hskip : d = 0 ∧ buffer = []
      -- A zero in front is not written, and no digit has been taken off `M` yet.
      · obtain ⟨rfl, rfl⟩ := hskip
        have hpush : pushDigit [] 0 = [] := rfl
        rw [hpush, if_neg (by omega)]
        refine ih (.inl rfl) ?_ hrest (by omega)
        have hnil : decimal [] 0 = 0 := rfl
        rwa [hnil, Nat.zero_mul] at htotal ⊢
      · have hpush : pushDigit buffer d = buffer ++ [digitChar d] := if_pos (by tauto)
        have hpushed : Leads (buffer ++ [digitChar d]) := by
          rcases hbuffer with rfl | hleads
          · exact leads_first (Nat.pos_of_ne_zero fun hzero => hskip ⟨hzero, rfl⟩) hless
          · exact hleads.push hless
        have hunit : 0 < 10 ^ kappa * 2 ^ shift :=
          Nat.mul_pos (Nat.pow_pos (by decide)) (Nat.two_pow_pos shift)
        rw [hpush]
        split
        case isTrue hstop =>
          have hwrap : shiftLeft (10 ^ kappa) shift = 10 ^ kappa * 2 ^ shift := by
            have hpositive : 0 < decimal buffer 0 * 10 + d := by
              rw [← decimal_push buffer hless]
              exact (Nat.pow_pos (by decide)).trans_le (pow_le_decimal hpushed)
            have hle := Nat.le_mul_of_pos_left (10 ^ kappa * 2 ^ shift) hpositive
            exact Nat.mod_eq_of_lt (by omega)
          have hrounded := rounded_of_stop wpW hless hunit (by omega) htotal hstop (by omega)
            (hbuffer.symm.imp_right fun hempty => ⟨hempty, hgoing⟩)
          rw [hwrap]
          refine ⟨hrounded.leads, hrounded.length_eq.trans_le ?_, kappa, 0, ?_, ?_, ?_⟩
          · rcases hbuffer with rfl | hleads
            · decide
            · have hlength := length_le hleads (Nat.le_of_add_right_le hM.le) hsmaller hratio
              omega
          · push_cast
            omega
          · rw [pow_zero, Nat.mul_one]
            exact hrounded.low
          · rw [pow_zero, Nat.mul_one]
            exact hrounded.high
        case isFalse hgo =>
          exact ih (.inr hpushed) (by rw [decimal_push _ hless, htotal]) hrest (by omega)

end Loops

/-- Nine digits in front of the point are enough. -/
theorem lt_pow_countDecimalDigit32 {n : Nat} (hn : n < 10 ^ 9) :
    n < 10 ^ countDecimalDigit32 n := by
  unfold countDecimalDigit32
  split_ifs <;> omega

theorem digitGen_generates {W Mp : DiyFp} {M delta shift : Nat} (K : Int) (hshift : shift ≤ 60)
    (hexponent : Mp.e = -(shift : Int)) (hM : Mp.f = M) (hfits : M < 2 ^ 64)
    (hone : 2 ^ shift ≤ M) (hdigits : M < 10 ^ 9 * 2 ^ shift) (hdelta : delta < M)
    (hratio : M ≤ 10 ^ 16 * delta) :
    Generates M delta shift K (digitGen W Mp delta K) := by
  have hp1 : M / 2 ^ shift < 10 ^ 9 := Nat.div_lt_of_lt_mul (by rwa [Nat.mul_comm])
  have hcast : M / 2 ^ shift % 2 ^ 32 = M / 2 ^ shift :=
    Nat.mod_eq_of_lt (hp1.trans (by decide))
  have hsplit := Nat.div_add_mod' M (2 ^ shift)
  have hnil : decimal [] 0 = 0 := rfl
  have hcount : (-Mp.e).toNat = shift := by omega
  rw [digitGen]
  simp only [hcount, hM, hcast]
  exact integralDigits_generates hshift hratio (.inl rfl)
    (by rw [hnil, Nat.zero_mul, Nat.zero_add, hsplit]) (lt_pow_countDecimalDigit32 hp1)
    (Nat.mod_lt _ (Nat.two_pow_pos shift)) (by rwa [hsplit]) hfits hone

end Dtoa

end Uskit
