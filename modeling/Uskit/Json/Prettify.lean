import Uskit.Json.Grisu

namespace Uskit

/-! `Prettify` writes the digits and the exponent as a numeral of their value. -/

namespace Dtoa

open Json.Reader

/-! The parts of a numeral. -/

/-- A numeral of a value: its whole part is short, and its exponent in the range of doubles. -/
structure Spells (word : List Char) (value : Rat) : Prop where
  parts : ∃ whole part point exp ending, word = whole ++ (point ++ ending) ∧
    whole ∈ integers ∧ point ∈ pointed part ∧ ending ∈ endings part exp ∧
      whole.length ≤ 21 ∧ -1000 < exp ∧ exp ≤ 308 ∧
        decimal (whole ++ part) 0 * 10 ^ (exp - part.length) = value

theorem decimal_zeros (n i : Nat) : decimal (List.replicate n '0') i = i * 10 ^ n := by
  induction n generalizing i with
  | zero => rw [List.replicate_zero, pow_zero, Nat.mul_one]; rfl
  | succ n ih =>
      have hzero : digit '0' = 0 := rfl
      rw [List.replicate_succ, decimal_cons, hzero, Nat.add_zero, ih, pow_succ']
      ring

theorem zeros_digits (n : Nat) : ∀ x ∈ List.replicate n '0', isDigit x = true := by
  intro x hx
  rw [List.eq_of_mem_replicate hx]
  decide

theorem digits_of_all {word : List Char} (hnonempty : word ≠ [])
    (hword : ∀ x ∈ word, isDigit x = true) : word ∈ digits := by
  cases word with
  | nil => exact absurd rfl hnonempty
  | cons c rest =>
      obtain ⟨hc, hrest⟩ := List.forall_mem_cons.mp hword
      exact ⟨c, rest, rfl, hc, hrest⟩

theorem Leads.all {buffer : List Char} (hleads : Leads buffer) :
    ∀ x ∈ buffer, isDigit x = true :=
  integers_all (.inr hleads)

theorem Leads.whole {buffer : List Char} (hleads : Leads buffer) {n : Nat} (hn : 0 < n)
    (zeros : Nat) : buffer.take n ++ List.replicate zeros '0' ∈ integers := by
  obtain ⟨c, rest, rfl, hc, hrest⟩ := hleads
  obtain ⟨n, rfl⟩ : ∃ more, n = more + 1 := ⟨n - 1, by omega⟩
  refine .inr ⟨c, rest.take n ++ List.replicate zeros '0', rfl, hc, ?_⟩
  intro x hx
  rcases List.mem_append.mp hx with hx | hx
  · exact hrest x (List.mem_of_mem_take hx)
  · exact zeros_digits zeros x hx

/-! The exponent. -/

theorem digitChar_word {word : List Nat} (hnonempty : word ≠ []) (hword : ∀ d ∈ word, d < 10) :
    word.map digitChar ∈ digits := by
  apply digits_of_all (by simpa using hnonempty)
  intro x hx
  obtain ⟨d, hd, rfl⟩ := List.mem_map.mp hx
  exact (digitChar_digit d (hword d hd)).1

theorem decimal_digitChar (word : List Nat) (hword : ∀ d ∈ word, d < 10) (i : Nat) :
    decimal (word.map digitChar) i = word.foldl (fun value d => value * 10 + d) i := by
  induction word generalizing i with
  | nil => rfl
  | cons d word ih =>
      obtain ⟨hd, hrest⟩ := List.forall_mem_cons.mp hword
      rw [List.map_cons, decimal_cons, (digitChar_digit d hd).2, ih hrest]
      rfl

theorem writeExponent_eq {K : Int} (hless : K.natAbs < 1000) :
    ∃ word, writeExponent K = (if K < 0 then ['-'] else []) ++ word ∧ word ∈ digits ∧
      decimal word 0 = K.natAbs ∧ word.length ≤ 3 := by
  have hwritten : ∀ m < 1000, ∃ word : List Nat,
      (if 100 ≤ m then [digitChar (m / 100), digitChar (m % 100 / 10), digitChar (m % 10)]
        else if 10 ≤ m then [digitChar (m / 10), digitChar (m % 10)] else [digitChar m]) =
        word.map digitChar ∧ word ≠ [] ∧ (∀ d ∈ word, d < 10) ∧
        word.foldl (fun value d => value * 10 + d) 0 = m ∧ word.length ≤ 3 := by
    intro m hm
    split
    · exact ⟨[m / 100, m % 100 / 10, m % 10], rfl, by simp, by simp; omega, by simp; omega, by simp⟩
    · split
      · exact ⟨[m / 10, m % 10], rfl, by simp, by simp; omega, by simp; omega, by simp⟩
      · exact ⟨[m], rfl, by simp, by simp; omega, by simp, by simp⟩
  obtain ⟨word, hword, hnonempty, hdigits, hvalue, hlength⟩ := hwritten K.natAbs hless
  refine ⟨word.map digitChar, ?_, digitChar_word hnonempty hdigits, ?_, by simpa⟩
  · rw [writeExponent, hword]
  · rw [decimal_digitChar word hdigits, hvalue]

theorem writeExponent_mem {K : Int} (hless : K.natAbs < 1000) :
    writeExponent K ∈ signedExps K := by
  obtain ⟨word, hwritten, hdigits, hvalue, -⟩ := writeExponent_eq hless
  rw [hwritten]
  split
  case isTrue hneg =>
    refine .inr (.inr (Language.append_mem_mul (Set.mem_singleton _) ⟨hdigits, ?_⟩))
    omega
  case isFalse hnot =>
    rw [List.nil_append]
    exact .inl ⟨hdigits, by omega⟩

theorem length_writeExponent {K : Int} (hless : K.natAbs < 1000) :
    (writeExponent K).length ≤ 4 := by
  obtain ⟨word, hwritten, -, -, hlength⟩ := writeExponent_eq hless
  rw [hwritten]
  split
  · rw [List.length_append, List.length_singleton]
    omega
  · rw [List.nil_append]
    omega

/-! The forms of the text. -/

section Forms

variable {buffer : List Char} {k : Int} (hleads : Leads buffer)

include hleads

theorem Leads.length_pos : 0 < buffer.length := by
  obtain ⟨c, rest, rfl, -⟩ := hleads
  exact Nat.succ_pos _

theorem spells_integer (hk : 0 ≤ k) (hshort : buffer.length + k ≤ 21) :
    Spells (buffer ++ List.replicate k.toNat '0' ++ ['.', '0']) (digitsValue (buffer, k)) := by
  have hwhole := hleads.whole (n := buffer.length) hleads.length_pos k.toNat
  rw [List.take_length] at hwhole
  refine ⟨_, ['0'], ['.', '0'], 0, [], by simp, hwhole, .inr ⟨⟨'0', [], rfl, rfl, nofun⟩, rfl⟩,
    .inl ⟨by simp, rfl, rfl⟩, ?_, by decide, by decide, ?_⟩
  · simp only [List.length_append, List.length_replicate]
    omega
  · have hzero : ∀ i, decimal ['0'] i = i * 10 := fun i => decimal_zeros 1 i
    rw [decimal_append, decimal_append, decimal_zeros, hzero, digitsValue]
    have hpower : (10 : Rat) ^ k = 10 ^ k.toNat := by rw [← zpow_natCast, Int.toNat_of_nonneg hk]
    rw [hpower]
    norm_num
    ring

theorem Leads.rest_digits {n : Nat} (hn : n < buffer.length) : buffer.drop n ∈ digits :=
  digits_of_all (by simpa using hn) fun x hx => hleads.all x (List.mem_of_mem_drop hx)

theorem spells_pointed {n : Nat} (hn : 0 < n) (hless : n < buffer.length) (hshort : n ≤ 21)
    {exp : Int} (hlow : -1000 < exp) (hhigh : exp ≤ 308) {ending : List Char}
    (hending : ending ∈ endings (buffer.drop n) exp) (hk : exp - (buffer.length - n : Nat) = k) :
    Spells (buffer.take n ++ '.' :: (buffer.drop n ++ ending)) (digitsValue (buffer, k)) := by
  have hwhole := hleads.whole hn 0
  rw [List.replicate_zero, List.append_nil] at hwhole
  refine ⟨_, buffer.drop n, '.' :: buffer.drop n, exp, ending, rfl, hwhole,
    .inr ⟨hleads.rest_digits hless, rfl⟩, hending, ?_, hlow, hhigh, ?_⟩
  · exact (List.length_take_le _ _).trans hshort
  · rw [List.take_append_drop, List.length_drop, hk, digitsValue]

theorem spells_fraction {zeros : Nat} (hk : -(zeros + buffer.length : Int) = k) :
    Spells (['0', '.'] ++ List.replicate zeros '0' ++ buffer) (digitsValue (buffer, k)) := by
  have hdigits : List.replicate zeros '0' ++ buffer ∈ digits := by
    apply digits_of_all
    · exact List.append_ne_nil_of_right_ne_nil _ (List.length_pos_iff.mp hleads.length_pos)
    · intro x hx
      rcases List.mem_append.mp hx with hx | hx
      · exact zeros_digits zeros x hx
      · exact hleads.all x hx
  refine ⟨['0'], List.replicate zeros '0' ++ buffer, '.' :: (List.replicate zeros '0' ++ buffer),
    0, [], by simp, .inl rfl, .inr ⟨hdigits, rfl⟩, .inl ⟨?_, rfl, rfl⟩, by decide,
    by decide, by decide, ?_⟩
  · obtain ⟨c, rest, hcons, -⟩ := hdigits
    rw [hcons]
    exact List.cons_ne_nil c rest
  · have hzero : decimal ['0'] 0 = 0 := rfl
    rw [decimal_append, hzero, decimal_append, decimal_zeros, Nat.zero_mul, digitsValue, ← hk]
    congr 2
    rw [List.length_append, List.length_replicate]
    push_cast
    ring

theorem spells_single (hone : buffer.length = 1) (hlow : -1000 < k) (hhigh : k ≤ 308) :
    Spells (buffer ++ 'e' :: writeExponent k) (digitsValue (buffer, k)) := by
  have hwhole := hleads.whole hleads.length_pos 0
  rw [List.take_length, List.replicate_zero, List.append_nil] at hwhole
  have hending : 'e' :: writeExponent k ∈ endings [] k :=
    .inr (.inl (Language.append_mem_mul (Set.mem_singleton ['e'])
      (writeExponent_mem (by omega))))
  refine ⟨buffer, [], [], k, _, rfl, hwhole, .inl ⟨rfl, rfl⟩, hending, by omega, hlow, hhigh,
    ?_⟩
  rw [List.append_nil, digitsValue]
  simp

end Forms

/-- The text is a numeral of the digits' value, in 24 characters. -/
theorem prettify_spells {buffer : List Char} {k : Int} (hleads : Leads buffer)
    (hshort : buffer.length ≤ 17) (hlow : -324 < buffer.length + k)
    (hhigh : buffer.length + k ≤ 309) :
    Spells (prettify buffer k defaultMaxDecimalPlaces) (digitsValue (buffer, k)) ∧
      (prettify buffer k defaultMaxDecimalPlaces).length ≤ 24 := by
  have hpos := hleads.length_pos
  have hdefault : (defaultMaxDecimalPlaces : Int) = 324 := rfl
  unfold prettify
  simp only [hdefault]
  split
  case isTrue hinteger =>
    refine ⟨spells_integer hleads hinteger.1 hinteger.2, ?_⟩
    simp only [List.length_append, List.length_replicate, List.length_cons, List.length_nil]
    omega
  case isFalse hinteger =>
    split
    case isTrue hpoint =>
      rw [if_neg (by omega)]
      have hending : [] ∈ endings (buffer.drop (buffer.length + k).toNat) 0 := by
        refine .inl ⟨?_, rfl, rfl⟩
        rw [ne_eq, List.drop_eq_nil_iff]
        omega
      have hspells := spells_pointed (k := k) hleads (n := (buffer.length + k).toNat) (by omega)
        (by omega) (by omega) (by decide) (by decide) hending (by omega)
      rw [List.append_nil] at hspells
      refine ⟨hspells, ?_⟩
      simp only [List.length_append, List.length_take, List.length_cons, List.length_drop]
      omega
    case isFalse hpoint =>
      split
      case isTrue hfraction =>
        rw [if_neg (by omega)]
        refine ⟨spells_fraction hleads (by omega), ?_⟩
        simp only [List.length_append, List.length_replicate, List.length_cons, List.length_nil]
        omega
      case isFalse hfraction =>
        rw [if_neg (by omega)]
        split
        case isTrue hone =>
          have hexp : (buffer.length : Int) + k - 1 = k := by omega
          rw [hexp]
          refine ⟨spells_single hleads hone (by omega) (by omega), ?_⟩
          have hwritten := length_writeExponent (K := k) (by omega)
          simp only [List.length_append, List.length_cons]
          omega
        case isFalse hmore =>
          have hexponent : ((buffer.length : Int) + k - 1).natAbs < 1000 := by omega
          have hending : 'e' :: writeExponent (buffer.length + k - 1) ∈
              endings (buffer.drop 1) (buffer.length + k - 1) :=
            .inr (.inl (Language.append_mem_mul (Set.mem_singleton ['e'])
              (writeExponent_mem hexponent)))
          have hspells := spells_pointed (k := k) hleads (by decide) (by omega) (by decide)
            (by omega) (by omega) hending (by omega)
          refine ⟨by rwa [List.append_assoc, List.cons_append], ?_⟩
          have hwritten := length_writeExponent hexponent
          simp only [List.length_append, List.length_take, List.length_cons, List.length_drop]
          omega

end Dtoa

end Uskit
