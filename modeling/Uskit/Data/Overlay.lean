import Mathlib.Data.List.Infix
import Mathlib.Tactic.Tauto

namespace Uskit.Data

/-! Trees as layers: what stands at each path, and one layer laid over another.  A leaf of
the upper layer hides all that the lower one holds beyond it. -/

abbrev Layer (κ : Type u) (σ : Type v) := List κ → Option σ

namespace Layer

variable {κ : Type u} {σ : Type v} (Leaf : σ → Prop)

/-- A leaf stands on the way to the path, or at its end. -/
def Blocks (layer : Layer κ σ) (path : List κ) : Prop :=
  ∃ before shape, before <+: path ∧ layer before = some shape ∧ Leaf shape

/-- What holds something has branches on the way to it. -/
def Rooted (layer : Layer κ σ) : Prop :=
  ∀ path, layer path ≠ none → ∀ before, before <+: path → before ≠ path →
    ∃ shape, layer before = some shape ∧ ¬ Leaf shape

open Classical in
noncomputable def overlay (upper lower : Layer κ σ) : Layer κ σ := fun path =>
  (upper path).or (if upper.Blocks Leaf path then none else lower path)

/-- The lowest layer holds something under a leaf of the middle one, and the highest layer
has a branch in place of that leaf and nothing in the way. -/
structure Resurfaces (lowest middle highest : Layer κ σ) (path : List κ) : Prop where
  held : lowest path ≠ none
  hidden : ∃ before leaf branch, before <+: path ∧ middle before = some leaf ∧ Leaf leaf ∧
    highest before = some branch
  absent : highest path = none
  visible : ¬ highest.Blocks Leaf path

variable {Leaf}

section Overlay

variable {upper lower : Layer κ σ} {path : List κ}

theorem overlay_of_some {shape : σ} (hupper : upper path = some shape) :
    overlay Leaf upper lower path = some shape := by
  rw [overlay, hupper, Option.some_or]

theorem overlay_of_blocks (hblocks : upper.Blocks Leaf path) :
    overlay Leaf upper lower path = upper path := by
  rw [overlay, if_pos hblocks, Option.or_none]

theorem overlay_of_open (hnone : upper path = none) (hopen : ¬ upper.Blocks Leaf path) :
    overlay Leaf upper lower path = lower path := by
  rw [overlay, hnone, Option.none_or, if_neg hopen]

theorem Blocks.overlay (hblocks : upper.Blocks Leaf path) :
    (overlay Leaf upper lower).Blocks Leaf path := by
  obtain ⟨before, shape, hbefore, hshape, hleaf⟩ := hblocks
  exact ⟨before, shape, hbefore, overlay_of_some hshape, hleaf⟩

theorem Blocks.mono {before : List κ} (hblocks : upper.Blocks Leaf before)
    (hbefore : before <+: path) : upper.Blocks Leaf path := by
  obtain ⟨first, shape, hfirst, hshape, hleaf⟩ := hblocks
  exact ⟨first, shape, hfirst.trans hbefore, hshape, hleaf⟩

end Overlay

section Assoc

variable {lowest middle highest : Layer κ σ} {path : List κ}

/-- In the upper two layers a path is blocked by the highest, or by a leaf of the middle one
that the highest leaves in place. -/
theorem blocks_overlay_iff (hopen : ¬ highest.Blocks Leaf path) :
    (overlay Leaf highest middle).Blocks Leaf path ↔
      ∃ before leaf, before <+: path ∧ middle before = some leaf ∧ Leaf leaf ∧
        highest before = none := by
  constructor
  · rintro ⟨before, leaf, hbefore, hshape, hleaf⟩
    have hopen' : ¬ highest.Blocks Leaf before := fun hblocks => hopen (hblocks.mono hbefore)
    cases hhighest : highest before with
    | some shape =>
        rw [overlay_of_some hhighest] at hshape
        exact absurd ⟨before, leaf, hbefore, by rw [hhighest, hshape], hleaf⟩ hopen
    | none =>
        rw [overlay_of_open hhighest hopen'] at hshape
        exact ⟨before, leaf, hbefore, hshape, hleaf, hhighest⟩
  · rintro ⟨before, leaf, hbefore, hmiddle, hleaf, hhighest⟩
    have hopen' : ¬ highest.Blocks Leaf before := fun hblocks => hopen (hblocks.mono hbefore)
    exact ⟨before, leaf, hbefore, by rw [overlay_of_open hhighest hopen', hmiddle], hleaf⟩

/-- Only one leaf stands on the way to a path. -/
theorem Rooted.leaf_unique {layer : Layer κ σ} (hrooted : layer.Rooted Leaf)
    {before other : List κ} {leaf shape : σ} (hbefore : before <+: path) (hother : other <+: path)
    (hleaf : layer before = some leaf) (hisLeaf : Leaf leaf) (hshape : layer other = some shape)
    (hisLeaf' : Leaf shape) : before = other := by
  by_contra hne
  rcases List.prefix_or_prefix_of_prefix hbefore hother with hprefix | hprefix
  · obtain ⟨branch, hbranch, hnot⟩ := hrooted other (by rw [hshape]; simp) before hprefix hne
    rw [hleaf, Option.some.injEq] at hbranch
    exact hnot (hbranch ▸ hisLeaf)
  · obtain ⟨branch, hbranch, hnot⟩ :=
      hrooted before (by rw [hleaf]; simp) other hprefix (Ne.symm hne)
    rw [hshape, Option.some.injEq] at hbranch
    exact hnot (hbranch ▸ hisLeaf')

/-- Where the layers are laid in two ways and the highest leaves the path to the others. -/
theorem overlay_assoc_of_open (hmiddle : middle.Rooted Leaf) (hnone : highest path = none)
    (hopen : ¬ highest.Blocks Leaf path) :
    overlay Leaf middle lowest path = overlay Leaf (overlay Leaf highest middle) lowest path ↔
      ¬ Resurfaces Leaf lowest middle highest path := by
  have hboth : overlay Leaf highest middle path = middle path := overlay_of_open hnone hopen
  cases hpath : middle path with
  | some shape =>
      rw [overlay_of_some hpath, overlay_of_some (hboth.trans hpath)]
      refine iff_of_true rfl fun hresurfaces => ?_
      obtain ⟨before, leaf, branch, hbefore, hleaf, hisLeaf, hbranch⟩ := hresurfaces.hidden
      by_cases heq : before = path
      · rw [heq, hnone] at hbranch
        cases hbranch
      · obtain ⟨other, hother, hnot⟩ := hmiddle path (by rw [hpath]; simp) before hbefore heq
        rw [hleaf, Option.some.injEq] at hother
        exact hnot (hother ▸ hisLeaf)
  | none =>
      by_cases hblocks : middle.Blocks Leaf path
      · obtain ⟨before, leaf, hbefore, hleaf, hisLeaf⟩ := hblocks
        rw [overlay_of_blocks ⟨before, leaf, hbefore, hleaf, hisLeaf⟩, hpath]
        cases hhighest : highest before with
        | none =>
            have hblocked : (overlay Leaf highest middle).Blocks Leaf path := (blocks_overlay_iff hopen).mpr
              ⟨before, leaf, hbefore, hleaf, hisLeaf, hhighest⟩
            rw [overlay_of_blocks hblocked, hboth, hpath]
            refine iff_of_true rfl fun hresurfaces => ?_
            obtain ⟨other, shape, branch, hother, hshape, hisLeaf', hbranch⟩ := hresurfaces.hidden
            rw [hmiddle.leaf_unique hother hbefore hshape hisLeaf' hleaf hisLeaf, hhighest]
              at hbranch
            cases hbranch
        | some branch =>
            have hopen' : ¬ (overlay Leaf highest middle).Blocks Leaf path := by
              rw [blocks_overlay_iff hopen]
              rintro ⟨other, shape, hother, hshape, hisLeaf', hhighest'⟩
              rw [hmiddle.leaf_unique hother hbefore hshape hisLeaf' hleaf hisLeaf, hhighest]
                at hhighest'
              cases hhighest'
            rw [overlay_of_open (hboth.trans hpath) hopen']
            constructor
            · intro hlowest hresurfaces
              exact hresurfaces.held hlowest.symm
            · intro hnot
              by_contra hheld
              exact hnot ⟨fun hlowest => hheld hlowest.symm,
                ⟨before, leaf, branch, hbefore, hleaf, hisLeaf, hhighest⟩, hnone, hopen⟩
      · have hopen' : ¬ (overlay Leaf highest middle).Blocks Leaf path := by
          rw [blocks_overlay_iff hopen]
          rintro ⟨before, leaf, hbefore, hleaf, hisLeaf, -⟩
          exact hblocks ⟨before, leaf, hbefore, hleaf, hisLeaf⟩
        rw [overlay_of_open hpath hblocks, overlay_of_open (hboth.trans hpath) hopen']
        refine iff_of_true rfl fun hresurfaces => hblocks ?_
        obtain ⟨before, leaf, -, hbefore, hleaf, hisLeaf, -⟩ := hresurfaces.hidden
        exact ⟨before, leaf, hbefore, hleaf, hisLeaf⟩

/-- Three layers are the same in whatever way they are laid, but for what resurfaces. -/
theorem overlay_assoc_iff (hmiddle : middle.Rooted Leaf) :
    overlay Leaf highest (overlay Leaf middle lowest) path =
        overlay Leaf (overlay Leaf highest middle) lowest path ↔
      ¬ Resurfaces Leaf lowest middle highest path := by
  cases hnone : highest path with
  | some shape =>
      rw [overlay_of_some hnone, overlay_of_some (overlay_of_some hnone)]
      refine iff_of_true rfl fun hresurfaces => ?_
      rw [hresurfaces.absent] at hnone
      cases hnone
  | none =>
      by_cases hblocks : highest.Blocks Leaf path
      · rw [overlay_of_blocks hblocks, overlay_of_blocks hblocks.overlay,
          overlay_of_blocks hblocks]
        exact iff_of_true rfl fun hresurfaces => hresurfaces.visible hblocks
      · rw [overlay_of_open hnone hblocks]
        exact overlay_assoc_of_open hmiddle hnone hblocks

end Assoc

end Layer

end Uskit.Data
