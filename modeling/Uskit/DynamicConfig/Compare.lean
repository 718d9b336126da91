import Mathlib.Data.Set.Insert
import Uskit.Data.WeakOrder
import Uskit.DynamicConfig.Rank
import Uskit.Json.NumberOrder

namespace Uskit

open Uskit.Data

/-! `Compare::operator()` as the comparator of `std::sort`. -/

/-- One feature is less than another; null counts as 0, NaN is neither less nor
greater than anything. -/
def featureLt (a b : Json) : Bool :=
  (featureDouble a).lt (featureDouble b)

/-- The first feature in which the two differ decides, by its direction. -/
def LexBefore : List Bool → (a b : List Json) → Prop
  | desc :: descs, a :: as, b :: bs =>
      if featureLt a b then desc = false
      else if featureLt b a then desc = true
      else LexBefore descs as bs
  | _, _, _ => False

/-- Some feature is null in both, and they differ in none before it. -/
def ShareNull : (a b : List Json) → Prop
  | a :: as, b :: bs =>
      a = .null ∧ b = .null ∨
        featureLt a b = false ∧ featureLt b a = false ∧ ShareNull as bs
  | _, _ => False

namespace RankEntry

/-- `a` is set before `b`: the features decide so, and no null that the two share
comes first. -/
def Before (desc : List Bool) (a b : RankEntry) : Prop :=
  LexBefore desc a.features b.features ∧ ¬ ShareNull a.features b.features

end RankEntry

theorem compareFeatures_cons (desc : Bool) (descs : List Bool) (a b : Json)
    (as bs : List Json) :
    compareFeatures (desc :: descs) (a :: as) (b :: bs) =
      if a = .null ∧ b = .null then false
      else if featureLt a b then !desc
      else if featureLt b a then desc
      else compareFeatures descs as bs := by
  cases a with
  | null =>
      cases b with
      | null => rw [if_pos ⟨rfl, rfl⟩, compareFeatures]
      | bool | number | string | array | object =>
          rw [if_neg (by simp)]
          rfl
  | bool | number | string | array | object =>
      rw [if_neg (by simp)]
      cases b with
      | null | bool | number | string | array | object => rfl

theorem compareFeatures_iff (descs : List Bool) (as bs : List Json) :
    compareFeatures descs as bs = true ↔
      LexBefore descs as bs ∧ ¬ ShareNull as bs := by
  induction descs generalizing as bs with
  | nil => simp [compareFeatures, LexBefore]
  | cons desc descs ih =>
      cases as with
      | nil => simp [compareFeatures, LexBefore]
      | cons a as =>
          cases bs with
          | nil => simp [compareFeatures, LexBefore]
          | cons b bs =>
              rw [compareFeatures_cons, LexBefore, ShareNull]
              by_cases hnull : a = .null ∧ b = .null
              · simp [hnull]
              · rw [if_neg hnull]
                cases hlt : featureLt a b with
                | true => simp [hnull]
                | false =>
                    cases hgt : featureLt b a with
                    | true => simp [hnull]
                    | false => simp [hnull, ih]

theorem RankEntry.compare_iff_before (desc : List Bool) (a b : RankEntry) :
    RankEntry.compare desc a b = true ↔ RankEntry.Before desc a b :=
  compareFeatures_iff desc a.features b.features

theorem LexBefore.asymm {descs : List Bool} {as bs : List Json}
    (hbefore : LexBefore descs as bs) : ¬ LexBefore descs bs as := by
  induction descs generalizing as bs with
  | nil => simp [LexBefore] at hbefore
  | cons desc descs ih =>
      cases as with
      | nil => simp [LexBefore] at hbefore
      | cons a as =>
          cases bs with
          | nil => simp [LexBefore] at hbefore
          | cons b bs =>
              rw [LexBefore] at hbefore ⊢
              cases hlt : featureLt a b with
              | true =>
                  have hgt : featureLt b a = false := Double.not_lt_of_lt hlt
                  simp only [hlt, if_true] at hbefore
                  simp [hgt, hbefore]
              | false =>
                  simp only [hlt, Bool.false_eq_true, if_false] at hbefore ⊢
                  cases hgt : featureLt b a with
                  | true =>
                      simp only [hgt, if_true] at hbefore
                      simp [hbefore]
                  | false =>
                      simp only [hgt, Bool.false_eq_true, if_false] at hbefore ⊢
                      exact ih hbefore

theorem RankEntry.Before.asymm {desc : List Bool} {a b : RankEntry}
    (hbefore : RankEntry.Before desc a b) : ¬ RankEntry.Before desc b a :=
  fun hback => hbefore.1.asymm hback.1

/-! Only shared nulls and NaN disturb the order of the features. -/

section Plain

def NoNan (features : List Json) : Prop :=
  ∀ feature ∈ features, (featureDouble feature).isNan = false

theorem NoNan.tail {a : Json} {as : List Json} (hplain : NoNan (a :: as)) :
    NoNan as :=
  fun feature hmem => hplain feature (.tail a hmem)

theorem featureLt_iff {a b : Json} (ha : (featureDouble a).isNan = false)
    (hb : (featureDouble b).isNan = false) :
    featureLt a b = true ↔ (featureDouble a).place < (featureDouble b).place := by
  rw [featureLt, Double.lt_iff_place]
  simp [ha, hb]

theorem lexBefore_cons_iff {desc : Bool} {descs : List Bool} {a b : Json}
    {as bs : List Json} (ha : (featureDouble a).isNan = false)
    (hb : (featureDouble b).isNan = false) :
    LexBefore (desc :: descs) (a :: as) (b :: bs) ↔
      (featureDouble a).place < (featureDouble b).place ∧ desc = false ∨
        (featureDouble b).place < (featureDouble a).place ∧ desc = true ∨
          (featureDouble a).place = (featureDouble b).place ∧
            LexBefore descs as bs := by
  rw [LexBefore]
  simp only [featureLt_iff ha hb, featureLt_iff hb ha]
  rcases lt_trichotomy (featureDouble a).place (featureDouble b).place with
    hlt | heq | hgt
  · simp [hlt, hlt.ne, hlt.asymm]
  · simp [heq]
  · simp [hgt, hgt.ne', hgt.asymm]

theorem LexBefore.trans {descs : List Bool} {as bs cs : List Json}
    (has : NoNan as) (hbs : NoNan bs) (hcs : NoNan cs)
    (hfirst : LexBefore descs as bs) (hsecond : LexBefore descs bs cs) :
    LexBefore descs as cs := by
  induction descs generalizing as bs cs with
  | nil => simp [LexBefore] at hfirst
  | cons desc descs ih =>
      cases as with
      | nil => simp [LexBefore] at hfirst
      | cons a as =>
          cases bs with
          | nil => simp [LexBefore] at hfirst
          | cons b bs =>
              cases cs with
              | nil => simp [LexBefore] at hsecond
              | cons c cs =>
                  have ha := has a List.mem_cons_self
                  have hb := hbs b List.mem_cons_self
                  have hc := hcs c List.mem_cons_self
                  rw [lexBefore_cons_iff ha hb] at hfirst
                  rw [lexBefore_cons_iff hb hc] at hsecond
                  rw [lexBefore_cons_iff ha hc]
                  rcases hfirst with ⟨hab, rfl⟩ | ⟨hba, rfl⟩ | ⟨hab, hrest⟩
                  · rcases hsecond with ⟨hbc, -⟩ | ⟨-, hdesc⟩ | ⟨hbc, -⟩
                    · exact .inl ⟨hab.trans hbc, rfl⟩
                    · cases hdesc
                    · exact .inl ⟨hbc ▸ hab, rfl⟩
                  · rcases hsecond with ⟨-, hdesc⟩ | ⟨hcb, -⟩ | ⟨hbc, -⟩
                    · cases hdesc
                    · exact .inr (.inl ⟨hcb.trans hba, rfl⟩)
                    · exact .inr (.inl ⟨hbc ▸ hba, rfl⟩)
                  · rw [hab]
                    rcases hsecond with hbc | hcb | ⟨hbc, hlast⟩
                    · exact .inl hbc
                    · exact .inr (.inl hcb)
                    · exact .inr (.inr
                        ⟨hbc, ih has.tail hbs.tail hcs.tail hrest hlast⟩)

theorem featureLt_congr {a b : Json} (ha : (featureDouble a).isNan = false)
    (hb : (featureDouble b).isNan = false)
    (hplace : (featureDouble a).place = (featureDouble b).place) (c : Json) :
    featureLt c a = featureLt c b ∧ featureLt a c = featureLt b c := by
  constructor
  · rw [Bool.eq_iff_iff, featureLt, featureLt, Double.lt_iff_place,
      Double.lt_iff_place]
    simp [ha, hb, hplace]
  · rw [Bool.eq_iff_iff, featureLt, featureLt, Double.lt_iff_place,
      Double.lt_iff_place]
    simp [ha, hb, hplace]

/-- Features that do not decide are the same to any other list. -/
theorem lexBefore_congr {descs : List Bool} {as bs : List Json}
    (has : NoNan as) (hbs : NoNan bs) (hasLength : as.length = descs.length)
    (hbsLength : bs.length = descs.length)
    (htied : ¬ SetApart (LexBefore descs) as bs) (cs : List Json) :
    (LexBefore descs cs as ↔ LexBefore descs cs bs) ∧
      (LexBefore descs as cs ↔ LexBefore descs bs cs) := by
  induction descs generalizing as bs cs with
  | nil => simp [LexBefore]
  | cons desc descs ih =>
      obtain ⟨a, as, rfl⟩ := List.exists_cons_of_length_eq_add_one hasLength
      obtain ⟨b, bs, rfl⟩ := List.exists_cons_of_length_eq_add_one hbsLength
      have ha := has a List.mem_cons_self
      have hb := hbs b List.mem_cons_self
      rw [not_setApart_iff, lexBefore_cons_iff ha hb, lexBefore_cons_iff hb ha]
        at htied
      obtain ⟨hab, hba⟩ := htied
      have hplace : (featureDouble a).place = (featureDouble b).place := by
        rcases lt_trichotomy (featureDouble a).place (featureDouble b).place with
          hlt | heq | hgt
        · cases desc with
          | false => exact absurd (.inl ⟨hlt, rfl⟩) hab
          | true => exact absurd (.inr (.inl ⟨hlt, rfl⟩)) hba
        · exact heq
        · cases desc with
          | false => exact absurd (.inl ⟨hgt, rfl⟩) hba
          | true => exact absurd (.inr (.inl ⟨hgt, rfl⟩)) hab
      have hrest : ¬ SetApart (LexBefore descs) as bs := by
        intro hapart
        rcases hapart with hahead | hback
        · exact hab (.inr (.inr ⟨hplace, hahead⟩))
        · exact hba (.inr (.inr ⟨hplace.symm, hback⟩))
      cases cs with
      | nil => simp [LexBefore]
      | cons c cs =>
          obtain ⟨hbehind, hahead⟩ := featureLt_congr ha hb hplace c
          have hnext := ih has.tail hbs.tail (Nat.succ.inj hasLength)
            (Nat.succ.inj hbsLength) hrest cs
          constructor
          · rw [LexBefore, LexBefore, hbehind, hahead, hnext.1]
          · rw [LexBefore, LexBefore, hbehind, hahead, hnext.2]

variable {desc : List Bool} {candidates : Set RankEntry}

theorem noCircle_of_noNan {a b c : RankEntry} (ha : NoNan a.features)
    (hb : NoNan b.features) (hc : NoNan c.features) (hab : a.Before desc b)
    (hbc : b.Before desc c) : ¬ c.Before desc a := by
  intro hca
  exact (hab.1.trans ha hb hc hbc.1).asymm hca.1

theorem ShareNull.symm {as bs : List Json} (hshare : ShareNull as bs) :
    ShareNull bs as := by
  induction as generalizing bs with
  | nil => exact hshare.elim
  | cons a as ih =>
      cases bs with
      | nil => exact hshare.elim
      | cons b bs =>
          cases hshare with
          | inl hnull => exact .inl ⟨hnull.2, hnull.1⟩
          | inr hlater => exact .inr ⟨hlater.2.1, hlater.1, ih hlater.2.2⟩

theorem ShareNull.not_setApart {a b : RankEntry}
    (hshare : ShareNull a.features b.features) :
    ¬ SetApart (RankEntry.Before desc) a b := by
  intro hapart
  rcases hapart with hahead | hback
  · exact hahead.2 hshare
  · exact hback.2 hshare.symm

/-- What is set before or after the one is set so to the other. -/
def AlikeTo (desc : List Bool) (c a b : RankEntry) : Prop :=
  (c.Before desc a → c.Before desc b) ∧ (a.Before desc c → b.Before desc c)

/-- Two candidates that share a null before they differ are placed alike by every
third one. -/
def HarmlessNulls (desc : List Bool) (candidates : Set RankEntry) : Prop :=
  ∀ a ∈ candidates, ∀ b ∈ candidates, ∀ c ∈ candidates,
    ShareNull a.features b.features → AlikeTo desc c a b

/-- Tied candidates that share no null are placed alike: what shares a null with
one of them is tied to the other. -/
theorem HarmlessNulls.alike (hharmless : HarmlessNulls desc candidates)
    {a b c : RankEntry} (ha : a ∈ candidates) (hb : b ∈ candidates)
    (hc : c ∈ candidates) (haPlain : NoNan a.features) (hbPlain : NoNan b.features)
    (haLength : a.features.length = desc.length)
    (hbLength : b.features.length = desc.length)
    (htied : ¬ SetApart (RankEntry.Before desc) a b) : AlikeTo desc c a b := by
  by_cases hshare : ShareNull a.features b.features
  · exact hharmless a ha b hb c hc hshare
  have hlex : ¬ SetApart (LexBefore desc) a.features b.features := by
    intro hapart
    rcases hapart with hahead | hback
    · exact htied (.inl ⟨hahead, hshare⟩)
    · exact htied (.inr ⟨hback, fun hother => hshare hother.symm⟩)
  have hcongr := lexBefore_congr haPlain hbPlain haLength hbLength hlex c.features
  constructor
  · intro hbefore
    refine ⟨hcongr.1.mp hbefore.1, fun hother => ?_⟩
    have hahead := (hharmless c hc b hb a ha hother).2 hbefore
    exact htied (.inr hahead)
  · intro hbefore
    refine ⟨hcongr.2.mp hbefore.1, fun hother => ?_⟩
    have hahead := (hharmless c hc b hb a ha hother.symm).1 hbefore
    exact htied (.inl hahead)

/-- Neither of two numbers is less than the other. -/
def SameNumber (a b : Json) : Prop :=
  featureLt a b = false ∧ featureLt b a = false

/-- Somewhere two have a null and the third has the number 0; before that the three
have the same numbers, and the two share no null. -/
def ZeroBeside : (a b c : List Json) → Prop
  | a :: as, b :: bs, c :: cs =>
      a = .null ∧ b = .null ∧ c ≠ .null ∧ SameNumber a c ∨
        ¬ (a = .null ∧ b = .null) ∧ SameNumber a b ∧ SameNumber a c ∧
          ZeroBeside as bs cs
  | _, _, _ => False

/-- No two candidates with different features share a null where a third one has
the number 0. -/
def NullsApart (candidates : Set RankEntry) : Prop :=
  ∀ a ∈ candidates, ∀ b ∈ candidates, ∀ c ∈ candidates,
    a.features ≠ b.features → ¬ ZeroBeside a.features b.features c.features

theorem ZeroBeside.shareNull {a b c : List Json} (hbeside : ZeroBeside a b c) :
    ShareNull a b := by
  induction a generalizing b c with
  | nil => exact hbeside.elim
  | cons first rest ih =>
      cases b with
      | nil => exact hbeside.elim
      | cons second seconds =>
          cases c with
          | nil => exact hbeside.elim
          | cons third thirds =>
              rcases hbeside with ⟨hfirst, hsecond, -⟩ | ⟨-, hsame, -, hlater⟩
              · exact .inl ⟨hfirst, hsecond⟩
              · exact .inr ⟨hsame.1, hsame.2, ih hlater⟩

theorem SameNumber.symm {a b : Json} (hsame : SameNumber a b) : SameNumber b a :=
  ⟨hsame.2, hsame.1⟩

theorem sameNumber_iff {a b : Json} (ha : (featureDouble a).isNan = false)
    (hb : (featureDouble b).isNan = false) :
    SameNumber a b ↔ (featureDouble a).place = (featureDouble b).place := by
  rw [SameNumber, Bool.eq_false_iff, Bool.eq_false_iff, ne_eq, ne_eq,
    featureLt_iff ha hb, featureLt_iff hb ha, not_lt, not_lt, and_comm]
  exact le_antisymm_iff.symm

theorem not_zeroBeside_head {a b c : Json} {as bs cs : List Json} (ha : a = .null)
    (hb : b = .null) (hapart : ¬ ZeroBeside (a :: as) (b :: bs) (c :: cs)) :
    c = .null ∨ ¬ SameNumber a c := by
  by_contra hboth
  rw [not_or, not_not] at hboth
  exact hapart (.inl ⟨ha, hb, hboth.1, hboth.2⟩)

theorem not_zeroBeside_tail {a b c : Json} {as bs cs : List Json}
    (hnull : ¬ (a = .null ∧ b = .null)) (hab : SameNumber a b) (hac : SameNumber a c)
    (hapart : ¬ ZeroBeside (a :: as) (b :: bs) (c :: cs)) : ¬ ZeroBeside as bs cs :=
  fun hbeside => hapart (.inr ⟨hnull, hab, hac, hbeside⟩)

theorem SameNumber.refl (a : Json) : SameNumber a a := by
  have hnot : featureLt a a = false := by
    by_contra hlt
    rw [Bool.not_eq_false] at hlt
    cases hlt.symm.trans (Double.not_lt_of_lt hlt)
  exact ⟨hnot, hnot⟩

theorem compareFeatures_of_differ {desc : Bool} {descs : List Bool} {a b : Json}
    (as bs : List Json) (hdiffer : ¬ SameNumber a b) :
    compareFeatures (desc :: descs) (a :: as) (b :: bs) =
      if featureLt a b then !desc else desc := by
  have hnull : ¬ (a = .null ∧ b = .null) := by
    rintro ⟨rfl, rfl⟩
    exact hdiffer (.refl .null)
  rw [compareFeatures_cons, if_neg hnull]
  cases hlt : featureLt a b with
  | true => rfl
  | false =>
      have hgt : featureLt b a = true := by
        by_contra hnot
        exact hdiffer ⟨hlt, (Bool.not_eq_true _).mp hnot⟩
      rw [hgt]
      rfl

/-- Behind the same number, unless it is a null that both have, the next feature decides. -/
theorem compareFeatures_of_same {desc : Bool} {descs : List Bool} {a b : Json}
    (as bs : List Json) (hnull : ¬ (a = .null ∧ b = .null)) (hsame : SameNumber a b) :
    compareFeatures (desc :: descs) (a :: as) (b :: bs) = compareFeatures descs as bs := by
  rw [compareFeatures_cons, if_neg hnull, hsame.1, hsame.2]
  rfl

/-- The operator places two lists that share a null alike, if none of the three has
the number 0 beside a null of the two others. -/
theorem compareFeatures_alike {descs : List Bool} {as bs cs : List Json}
    (has : NoNan as) (hbs : NoNan bs) (hshare : ShareNull as bs)
    (hthird : ¬ ZeroBeside as bs cs) (hsecond : ¬ ZeroBeside as cs bs)
    (hfirst : ¬ ZeroBeside bs cs as) :
    compareFeatures descs cs as = compareFeatures descs cs bs ∧
      compareFeatures descs as cs = compareFeatures descs bs cs := by
  induction descs generalizing as bs cs with
  | nil => simp [compareFeatures]
  | cons desc descs ih =>
      cases as with
      | nil => exact hshare.elim
      | cons a as =>
      cases bs with
      | nil => exact hshare.elim
      | cons b bs =>
      cases cs with
      | nil => simp [compareFeatures]
      | cons c cs =>
      have ha := has a List.mem_cons_self
      have hb := hbs b List.mem_cons_self
      by_cases hnull : a = .null ∧ b = .null
      · obtain ⟨rfl, rfl⟩ := hnull
        rcases not_zeroBeside_head rfl rfl hthird with rfl | hdiffer
        · simp [compareFeatures_cons]
        · -- the third is set apart from both nulls here
          have hback : ¬ SameNumber c .null := fun hsame => hdiffer hsame.symm
          constructor
          · rw [compareFeatures_of_differ _ _ hback, compareFeatures_of_differ _ _ hback]
          · rw [compareFeatures_of_differ _ _ hdiffer, compareFeatures_of_differ _ _ hdiffer]
      · rcases hshare with hshared | ⟨hlt, hgt, hlater⟩
        · exact absurd hshared hnull
        have hab : SameNumber a b := ⟨hlt, hgt⟩
        obtain ⟨hbehind, hahead⟩ :=
          featureLt_congr ha hb ((sameNumber_iff ha hb).mp hab) c
        have hsame : SameNumber b c ↔ SameNumber a c := by
          rw [SameNumber, SameNumber, hbehind, hahead]
        by_cases hac : SameNumber a c
        · have hbc : SameNumber b c := hsame.mpr hac
          -- no two of the three have a null here
          have hnotA : ¬ (a = .null ∧ c = .null) := by
            intro hshared
            rcases not_zeroBeside_head hshared.1 hshared.2 hsecond with hbnull | hdiffer
            · exact hnull ⟨hshared.1, hbnull⟩
            · exact hdiffer hab
          have hnotB : ¬ (b = .null ∧ c = .null) := by
            intro hshared
            rcases not_zeroBeside_head hshared.1 hshared.2 hfirst with hanull | hdiffer
            · exact hnull ⟨hanull, hshared.1⟩
            · exact hdiffer hab.symm
          have hrest := ih has.tail hbs.tail hlater
            (not_zeroBeside_tail hnull hab hac hthird)
            (not_zeroBeside_tail hnotA hac hab hsecond)
            (not_zeroBeside_tail hnotB hbc hab.symm hfirst)
          rw [compareFeatures_of_same _ _ (mt And.symm hnotA) hac.symm,
            compareFeatures_of_same _ _ (mt And.symm hnotB) hbc.symm,
            compareFeatures_of_same _ _ hnotA hac, compareFeatures_of_same _ _ hnotB hbc]
          exact hrest
        · have hbc : ¬ SameNumber b c := mt hsame.mp hac
          constructor
          · rw [compareFeatures_of_differ _ _ (mt SameNumber.symm hac),
              compareFeatures_of_differ _ _ (mt SameNumber.symm hbc), hbehind]
          · rw [compareFeatures_of_differ _ _ hac, compareFeatures_of_differ _ _ hbc, hahead]

theorem NullsApart.harmless (hapart : NullsApart candidates)
    (hplain : ∀ entry ∈ candidates, NoNan entry.features) :
    HarmlessNulls desc candidates := by
  intro a ha b hb c hc hshare
  simp only [AlikeTo, ← RankEntry.compare_iff_before, RankEntry.compare]
  by_cases hab : a.features = b.features
  · rw [hab]
    exact ⟨id, id⟩
  by_cases hac : a.features = c.features
  · -- a list is not before itself
    have hfree : compareFeatures desc a.features a.features ≠ true := by
      intro hbefore
      have hlex := ((compareFeatures_iff desc _ _).mp hbefore).1
      exact hlex.asymm hlex
    rw [← hac]
    exact ⟨fun hbefore => absurd hbefore hfree, fun hbefore => absurd hbefore hfree⟩
  by_cases hbc : b.features = c.features
  · have htied : ¬ SetApart (RankEntry.Before desc) a b := hshare.not_setApart
    rw [not_setApart_iff, ← RankEntry.compare_iff_before, ← RankEntry.compare_iff_before,
      RankEntry.compare, RankEntry.compare] at htied
    rw [← hbc]
    exact ⟨fun hbefore => absurd hbefore htied.2, fun hbefore => absurd hbefore htied.1⟩
  · have halike : compareFeatures desc c.features a.features =
          compareFeatures desc c.features b.features ∧
        compareFeatures desc a.features c.features =
          compareFeatures desc b.features c.features :=
      compareFeatures_alike (hplain a ha) (hplain b hb) hshare
        (hapart a ha b hb c hc hab) (hapart a ha c hc b hb hac)
        (hapart b hb c hc a ha hbc)
    rw [halike.1, halike.2]
    exact ⟨id, id⟩

/-- `Compare::operator()` is a strict weak order where no feature is NaN and no two
candidates share a null beside the number 0 of a third one. -/
theorem compare_isStrictWeakOrder (desc : List Bool) (candidates : Set RankEntry)
    (hlength : ∀ entry ∈ candidates, entry.features.length = desc.length)
    (hplain : ∀ entry ∈ candidates, NoNan entry.features)
    (hapart : NullsApart candidates) :
    IsStrictWeakOrder candidates
      (fun a b => RankEntry.compare desc a b = true) := by
  have hharmless : HarmlessNulls desc candidates := hapart.harmless hplain
  simp only [RankEntry.compare_iff_before]
  rw [isStrictWeakOrder_iff_placesAlike fun a b hbefore => hbefore.asymm]
  have hplaced : ∀ a b c : candidates,
      ¬ SetApart (RankEntry.Before desc) a.1 b.1 → AlikeTo desc c.1 a.1 b.1 := by
    intro a b c htied
    exact hharmless.alike a.2 b.2 c.2 (hplain a a.2) (hplain b b.2) (hlength a a.2)
      (hlength b b.2) htied
  refine ⟨?_, ?_, ?_⟩
  · intro a b c htied
    exact (hplaced a b c htied).1
  · intro a b c htied
    exact (hplaced a b c htied).2
  · intro a b c hab hbc
    exact noCircle_of_noNan (hplain a a.2) (hplain b b.2) (hplain c c.2) hab hbc

end Plain

instance (features : List Json) : Decidable (NoNan features) :=
  inferInstanceAs (Decidable (∀ feature ∈ features, _))

instance (a b : Json) : Decidable (SameNumber a b) :=
  inferInstanceAs (Decidable (_ ∧ _))

instance ZeroBeside.decidable : (as bs cs : List Json) → Decidable (ZeroBeside as bs cs)
  | _ :: as, _ :: bs, _ :: cs =>
      have := decidable as bs cs
      inferInstanceAs (Decidable (_ ∨ _))
  | [], _, _ => .isFalse id
  | _ :: _, [], _ => .isFalse id
  | _ :: _, _ :: _, [] => .isFalse id

/-- A candidate with a priority, if it has one, and a score. -/
def scored (name : String) (priority : Json) (score : Int) : RankEntry :=
  ⟨name, [priority, .number (.int score)]⟩

def lowItem : RankEntry := scored "low" .null 1

def middleItem : RankEntry := scored "middle" (.number (.int 0)) 2

def highItem : RankEntry := scored "high" .null 3

def topItem : RankEntry := scored "top" (.number (.int 1)) 2

theorem lowHighTop_ordered :
    IsStrictWeakOrder {entry | entry ∈ [lowItem, highItem, topItem]}
      fun a b => RankEntry.compare [false, false] a b = true := by
  have hlength : ∀ entry ∈ [lowItem, highItem, topItem], entry.features.length = 2 := by
    decide
  have hplain : ∀ entry ∈ [lowItem, highItem, topItem], NoNan entry.features := by
    decide +kernel
  have hapart : ∀ a ∈ [lowItem, highItem, topItem], ∀ b ∈ [lowItem, highItem, topItem],
      ∀ c ∈ [lowItem, highItem, topItem],
        a.features ≠ b.features → ¬ ZeroBeside a.features b.features c.features := by
    decide +kernel
  exact compare_isStrictWeakOrder [false, false] _ hlength hplain hapart

theorem sharedNull_not_transitive :
    ¬ ∀ (desc : List Bool) (candidates : Set RankEntry),
      (∀ entry ∈ candidates, entry.features.length = desc.length ∧
        ∀ feature ∈ entry.features, isFeature feature = true) →
      IsStrictWeakOrder candidates
        fun a b => RankEntry.compare desc a b = true := by
  intro hall
  have hfirst : RankEntry.compare [false, false] lowItem middleItem = true := by
    decide +kernel
  have hsecond : RankEntry.compare [false, false] middleItem highItem = true := by
    decide +kernel
  have htied : RankEntry.compare [false, false] lowItem highItem = false := by
    decide +kernel
  have horder := hall [false, false] {lowItem, middleItem, highItem} (by
    rintro entry (rfl | rfl | rfl)
    · decide
    · decide
    · decide)
  have htrans := horder.toIsStrictOrder.toIsTrans.trans
    ⟨lowItem, by simp⟩ ⟨middleItem, by simp⟩ ⟨highItem, by simp⟩ hfirst hsecond
  exact Bool.false_ne_true (htied.symm.trans htrans)

end Uskit
