import Mathlib.Data.List.Basic

namespace Uskit.Data

/-! Histories of events, the newest first, in which every event is justified by
the events before it. -/

namespace History

variable {ε : Type u} {justified : ε → List ε → Prop}

def Justified (justified : ε → List ε → Prop) : List ε → Prop
  | [] => True
  | event :: past => justified event past ∧ Justified justified past

theorem Justified.past {later past : List ε}
    (hjustified : Justified justified (later ++ past)) :
    Justified justified past := by
  induction later with
  | nil => exact hjustified
  | cons event later ih => exact ih hjustified.2

theorem Justified.event {history later past : List ε} {event : ε}
    (hjustified : Justified justified history)
    (hsplit : history = later ++ event :: past) : justified event past := by
  subst hsplit
  exact hjustified.past.1

end History

end Uskit.Data
