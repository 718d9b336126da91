import Uskit.Backend.ResponsePolicy

namespace Uskit.RedisReply

/-! The replies of Redis as documents: which trees keep their values. -/

mutual
/-- The tree of the same shape, with the values as they are. -/
def document : RedisReply → Json
  | .nil => .null
  | .string data => .string data
  | .integer value => .number (.int value)
  | .array elements => .array (documents elements)
  | .error message => .string message
  | .unknown => .null

def documents : List RedisReply → List Json
  | [] => []
  | reply :: rest => document reply :: documents rest
end

mutual
/-- The integers of the tree, at any depth. -/
def integers : RedisReply → List Int
  | .integer value => [value]
  | .array elements => allIntegers elements
  | .nil | .string _ | .error _ | .unknown => []

def allIntegers : List RedisReply → List Int
  | [] => []
  | reply :: rest => integers reply ++ allIntegers rest
end

mutual
/-- No reply of the tree is of a kind that Redis does not have. -/
def Known : RedisReply → Prop
  | .array elements => AllKnown elements
  | .unknown => False
  | .nil | .string _ | .integer _ | .error _ => True

def AllKnown : List RedisReply → Prop
  | [] => True
  | reply :: rest => Known reply ∧ AllKnown rest
end

/-- The reply is parsed to the document that it stands for. -/
def KeepsValues (reply : RedisReply) : Prop :=
  reply.parse = .ok reply.document

theorem parseElements_cons {reply : RedisReply} {rest : List RedisReply}
    {value : Json} {values : List Json} :
    parseElements (reply :: rest) = .ok (value :: values) ↔
      parse reply = .ok value ∧ parseElements rest = .ok values := by
  rw [parseElements, Result.bind_eq_ok]
  constructor
  · intro hparse
    obtain ⟨first, hfirst, hrest⟩ := hparse
    obtain ⟨others, hothers, heq⟩ := Result.bind_eq_ok.mp hrest
    cases heq
    exact ⟨hfirst, hothers⟩
  · intro hparse
    refine ⟨value, hparse.1, ?_⟩
    rw [hparse.2]
    rfl

mutual
theorem keepsValues_iff_fits : (reply : RedisReply) → reply.Known →
    (reply.KeepsValues ↔ ∀ value ∈ reply.integers, fitsInt value = true)
  | .nil, _ => by simp [KeepsValues, parse, document, integers]
  | .string data, _ => by simp [KeepsValues, parse, document, integers]
  | .error message, _ => by simp [KeepsValues, parse, document, integers]
  | .unknown, hknown => by
      rw [Known] at hknown
      exact hknown.elim
  | .integer value, _ => by
      simp only [KeepsValues, parse, document, integers, Result.ok.injEq,
        Json.number.injEq, Number.int.injEq, List.forall_mem_singleton]
      exact bmod_eq_self
  | .array elements, hknown => by
      rw [Known] at hknown
      have helements := elements_keepValues_iff elements hknown
      rw [integers, ← helements, KeepsValues, parse, document, Result.bind_eq_ok]
      constructor
      · intro hparse
        obtain ⟨values, hvalues, heq⟩ := hparse
        cases heq
        exact hvalues
      · intro hvalues
        exact ⟨_, hvalues, rfl⟩

theorem elements_keepValues_iff : (elements : List RedisReply) → AllKnown elements →
    (parseElements elements = .ok (documents elements) ↔
      ∀ value ∈ allIntegers elements, fitsInt value = true)
  | [], _ => by simp [parseElements, documents, allIntegers]
  | reply :: rest, hknown => by
      rw [AllKnown] at hknown
      rw [documents, parseElements_cons, allIntegers, List.forall_mem_append,
        ← keepsValues_iff_fits reply hknown.1,
        ← elements_keepValues_iff rest hknown.2, KeepsValues]
end

/-- A tree keeps its values exactly if each of its integers is an `int`. -/
theorem keepsValues_iff (reply : RedisReply) (hknown : reply.Known) :
    reply.KeepsValues ↔
      ∀ value ∈ reply.integers, -(2 ^ 31) ≤ value ∧ value < 2 ^ 31 := by
  rw [keepsValues_iff_fits reply hknown]
  simp only [fitsInt_iff]

theorem nestedReply_keepsValues :
    (RedisReply.array [.nil, .array [.integer (-2147483648)]]).KeepsValues :=
  (keepsValues_iff _ (by simp [Known, AllKnown])).mpr
    (by simp [integers, allIntegers])

/-- The first count that is too large for an `int`. -/
theorem largeInteger_changes :
    ¬ ∀ reply : RedisReply, reply.Known →
      (∀ value ∈ reply.integers, -(2 ^ 63) ≤ value ∧ value < 2 ^ 63) →
        reply.KeepsValues := by
  intro hall
  have hkeeps := hall (.integer (2 ^ 31)) (by simp [Known]) (by simp [integers])
  rw [KeepsValues] at hkeeps
  revert hkeeps
  decide +kernel

end Uskit.RedisReply
