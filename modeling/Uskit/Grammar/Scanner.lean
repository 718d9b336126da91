import Uskit.Grammar.Regex

namespace Uskit.Grammar

/-! Scanners: at each position the rule with the longest match acts, of several
the first. -/

structure Rule (α : Type u) (τ : Type v) where
  pattern : Regex α
  action : List α → τ

namespace Rule

variable {α : Type u} {τ : Type v}

/-- The length of the longest match, and the first rule that has it. -/
def best : List (Rule α τ) → List α → Option (Nat × Rule α τ)
  | [], _ => none
  | rule :: rest, text =>
      match rule.pattern.longest text, best rest text with
      | none, found => found
      | some length, none => some (length, rule)
      | some length, some (other, later) =>
          if length < other then some (other, later) else some (length, rule)

/-- Scans until nothing is matched; `remaining` bounds the number of matches. -/
def scanFrom (rules : List (Rule α τ)) : (remaining : Nat) → List α → List τ
  | 0, _ => []
  | remaining + 1, text =>
      match best rules text with
      | some (length + 1, rule) =>
          rule.action (text.take (length + 1)) ::
            scanFrom rules remaining (text.drop (length + 1))
      | _ => []

def scan (rules : List (Rule α τ)) (text : List α) : List τ :=
  scanFrom rules text.length text

theorem best_longest {rules : List (Rule α τ)} {text : List α} {length : Nat}
    {rule : Rule α τ} (hbest : best rules text = some (length, rule)) :
    rule ∈ rules ∧ rule.pattern.Longest text length := by
  induction rules with
  | nil => cases hbest
  | cons first rest ih =>
      rw [best] at hbest
      split at hbest
      · exact ⟨.tail _ (ih hbest).1, (ih hbest).2⟩
      · rename_i hlongest _
        cases hbest
        exact ⟨.head _, Regex.longest_eq_some hlongest⟩
      · rename_i hlongest hrest
        split at hbest
        · cases hbest
          exact ⟨.tail _ (ih hrest).1, (ih hrest).2⟩
        · cases hbest
          exact ⟨.head _, Regex.longest_eq_some hlongest⟩

theorem scanFrom_eq {rules : List (Rule α τ)} {first second : Nat} {text : List α}
    (hfirst : text.length ≤ first) (hsecond : text.length ≤ second) :
    scanFrom rules first text = scanFrom rules second text := by
  induction first generalizing second text with
  | zero =>
      obtain rfl := List.length_eq_zero_iff.mp (Nat.le_zero.mp hfirst)
      cases second with
      | zero => rfl
      | succ second =>
          rw [scanFrom, scanFrom]
          split
          · rename_i hbest
            exact absurd (best_longest hbest).2.bound (by simp)
          · rfl
  | succ first ih =>
      cases second with
      | zero =>
          obtain rfl := List.length_eq_zero_iff.mp (Nat.le_zero.mp hsecond)
          rw [scanFrom, scanFrom]
          split
          · rename_i hbest
            exact absurd (best_longest hbest).2.bound (by simp)
          · rfl
      | succ second =>
          rw [scanFrom, scanFrom]
          split
          · rw [ih]
            · rw [List.length_drop]
              omega
            · rw [List.length_drop]
              omega
          · rfl

theorem scan_of_best {rules : List (Rule α τ)} {text : List α} {length : Nat}
    {rule : Rule α τ} (hbest : best rules text = some (length, rule))
    (hlength : 0 < length) :
    scan rules text =
      rule.action (text.take length) :: scan rules (text.drop length) := by
  obtain ⟨shorter, rfl⟩ := Nat.exists_eq_succ_of_ne_zero (Nat.ne_of_gt hlength)
  have hbound := (best_longest hbest).2.bound
  rw [scan, scan, scanFrom_eq (Nat.le_refl _) (Nat.le_succ _), scanFrom, hbest]
  simp only [Nat.succ_eq_add_one]
  rw [scanFrom_eq _ (Nat.le_refl _)]
  rw [List.length_drop]
  omega

/-- A text cut into matches, each the best at its place. -/
inductive Scans (rules : List (Rule α τ)) : List α → List τ → Prop
  | done : Scans rules [] []
  | next {word rest : List α} {rule : Rule α τ} {scanned : List τ}
      (hword : word ≠ [])
      (hbest : best rules (word ++ rest) = some (word.length, rule))
      (hrest : Scans rules rest scanned) :
      Scans rules (word ++ rest) (rule.action word :: scanned)

theorem best_isSome {rules : List (Rule α τ)} {rule : Rule α τ}
    (hrule : rule ∈ rules) {text : List α} {length : Nat}
    (hmatch : text.take length ∈ rule.pattern.language)
    (hlength : length ≤ text.length) :
    ∃ longest other, best rules text = some (longest, other) ∧
      length ≤ longest := by
  induction rules with
  | nil => cases hrule
  | cons first rest ih =>
      rw [best]
      cases hrule with
      | head =>
          cases hlongest : rule.pattern.longest text with
          | none => exact absurd hmatch (Regex.longest_eq_none hlongest length)
          | some found =>
              have hfound : length ≤ found := by
                by_contra hless
                exact (Regex.longest_eq_some hlongest).longer length
                  (Nat.lt_of_not_le hless) hlength hmatch
              cases best rest text with
              | none => exact ⟨found, rule, rfl, hfound⟩
              | some later =>
                  simp only
                  split
                  · rename_i hless
                    exact ⟨_, _, rfl, hfound.trans hless.le⟩
                  · exact ⟨found, rule, rfl, hfound⟩
      | tail _ hmem =>
          obtain ⟨longest, other, hbest, hlonger⟩ := ih hmem
          rw [hbest]
          cases first.pattern.longest text with
          | none => exact ⟨longest, other, rfl, hlonger⟩
          | some found =>
              simp only
              split
              · exact ⟨longest, other, rfl, hlonger⟩
              · rename_i hless
                exact ⟨found, first, rfl, hlonger.trans (Nat.le_of_not_lt hless)⟩

theorem scans_of_best {rules : List (Rule α τ)} {text : List α} {length : Nat}
    {rule : Rule α τ} {scanned : List τ}
    (hbest : best rules text = some (length, rule)) (hlength : 0 < length)
    (hrest : Scans rules (text.drop length) scanned) :
    Scans rules text (rule.action (text.take length) :: scanned) := by
  have htake : (text.take length).length = length :=
    List.length_take_of_le (best_longest hbest).2.bound
  have hword : text.take length ≠ [] := by
    rw [← List.length_pos_iff, htake]
    exact hlength
  have hsplit := List.take_append_drop length text
  have hnext : Scans rules (text.take length ++ text.drop length)
      (rule.action (text.take length) :: scanned) := by
    refine .next hword ?_ hrest
    rw [hsplit, htake]
    exact hbest
  rwa [hsplit] at hnext

/-- Where every character is matched by some rule, the whole text is scanned. -/
theorem scans_scan {rules : List (Rule α τ)}
    (htotal : ∀ char, ∃ rule ∈ rules, [char] ∈ rule.pattern.language)
    (text : List α) : Scans rules text (scan rules text) := by
  induction hlength : text.length using Nat.strong_induction_on
    generalizing text with
  | _ length ih =>
      cases text with
      | nil => exact .done
      | cons char text =>
          obtain ⟨rule, hrule, hmatch⟩ := htotal char
          have hfirst : (char :: text).take 1 ∈ rule.pattern.language := hmatch
          obtain ⟨longest, other, hbest, hpositive⟩ :=
            best_isSome hrule hfirst (by simp)
          rw [scan_of_best hbest hpositive]
          apply scans_of_best hbest hpositive
          apply ih _ _ _ rfl
          rw [← hlength, List.length_drop, List.length_cons]
          omega

theorem Scans.scan_eq {rules : List (Rule α τ)} {text : List α}
    {scanned : List τ} (hscans : Scans rules text scanned) :
    scan rules text = scanned := by
  induction hscans with
  | done => rfl
  | next hword hbest _ ih =>
      rw [scan_of_best hbest (List.length_pos_iff.mpr hword), List.take_left,
        List.drop_left, ih]

theorem exists_rule_of_mem_scan {rules : List (Rule α τ)} {text : List α}
    {scanned : τ} (hmem : scanned ∈ scan rules text) :
    ∃ rule ∈ rules, ∃ word, scanned = rule.action word := by
  rw [scan] at hmem
  generalize text.length = remaining at hmem
  induction remaining generalizing text with
  | zero => cases hmem
  | succ remaining ih =>
      rw [scanFrom] at hmem
      split at hmem
      · rename_i length rule hbest
        cases hmem with
        | head => exact ⟨rule, (best_longest hbest).1, _, rfl⟩
        | tail _ hrest => exact ih hrest
      · cases hmem

/-- A longest match acts if no rule matches more, and no earlier one as much. -/
theorem best_of_longest {before after : List (Rule α τ)} {rule : Rule α τ}
    {text : List α} {length : Nat}
    (hlongest : rule.pattern.Longest text length)
    (hbefore : ∀ other ∈ before, ∀ longer, length ≤ longer →
      longer ≤ text.length → text.take longer ∉ other.pattern.language)
    (hafter : ∀ other ∈ after, ∀ longer, length < longer →
      longer ≤ text.length → text.take longer ∉ other.pattern.language) :
    best (before ++ rule :: after) text = some (length, rule) := by
  induction before with
  | nil =>
      have hlater : ∀ found later, best after text = some (found, later) →
          found ≤ length := by
        intro found later hfound
        by_contra hlonger
        obtain ⟨hmem, hmatch⟩ := best_longest hfound
        exact hafter later hmem found (Nat.lt_of_not_le hlonger) hmatch.bound
          hmatch.matched
      rw [List.nil_append, best, Regex.longest_eq_some_iff.mpr hlongest]
      cases hrest : best after text with
      | none => rfl
      | some found =>
          obtain ⟨found, later⟩ := found
          simp only
          rw [if_neg (Nat.not_lt_of_le (hlater found later hrest))]
  | cons first rest ih =>
      rw [List.cons_append, best,
        ih fun other hother => hbefore other (.tail _ hother)]
      cases hfirst : first.pattern.longest text with
      | none => rfl
      | some shorter =>
          have hmatch := Regex.longest_eq_some hfirst
          have hshorter : shorter < length := by
            by_contra hnot
            exact hbefore first (.head _) shorter (Nat.le_of_not_lt hnot)
              hmatch.bound hmatch.matched
          simp only
          rw [if_pos hshorter]

/-- No rule matches the word together with a part of what follows it. -/
def Confined (rules : List (Rule α τ)) (word rest : List α) : Prop :=
  ∀ rule ∈ rules, ∀ more, more ≠ [] → more <+: rest →
    word ++ more ∉ rule.pattern.language

theorem Confined.take {rules : List (Rule α τ)} {word rest : List α}
    (hconfined : Confined rules word rest) {rule : Rule α τ}
    (hrule : rule ∈ rules) {length : Nat} (hlonger : word.length < length)
    (hbound : length ≤ (word ++ rest).length) :
    (word ++ rest).take length ∉ rule.pattern.language := by
  rw [List.take_append, List.take_of_length_le hlonger.le]
  apply hconfined rule hrule
  · intro hnil
    rw [List.length_append] at hbound
    have hlength := congrArg List.length hnil
    rw [List.length_take, List.length_nil] at hlength
    omega
  · exact List.take_prefix _ rest

/-- The first rule that matches a confined word acts on it. -/
theorem scan_append {rules : List (Rule α τ)} {word rest : List α}
    {rule : Rule α τ} (hword : word ≠ [])
    (hfirst : rules.find? (fun other => other.pattern.accepts word) = some rule)
    (hconfined : Confined rules word rest) :
    scan rules (word ++ rest) = rule.action word :: scan rules rest := by
  obtain ⟨haccepts, before, after, rfl, hbefore⟩ :=
    List.find?_eq_some_iff_append.mp hfirst
  have htake : (word ++ rest).take word.length = word := List.take_left
  have hlongest : rule.pattern.Longest (word ++ rest) word.length := by
    constructor
    · simp
    · rw [htake]
      exact Regex.accepts_iff.mp haccepts
    · intro longer hlonger hbound
      exact hconfined.take (by simp) hlonger hbound
  have hbest : best (before ++ rule :: after) (word ++ rest) =
      some (word.length, rule) := by
    apply best_of_longest hlongest
    · intro other hother longer hlonger hbound
      cases Nat.eq_or_lt_of_le hlonger with
      | inl heq =>
          rw [← heq, htake]
          intro hmatch
          have hrejects := hbefore other hother
          rw [Regex.accepts_iff.mpr hmatch] at hrejects
          cases hrejects
      | inr hless => exact hconfined.take (by simp [hother]) hless hbound
    · intro other hother longer hlonger hbound
      exact hconfined.take (by simp [hother]) hlonger hbound
  rw [scan_of_best hbest (List.length_pos_iff.mpr hword), htake, List.drop_left]

end Rule

end Uskit.Grammar
