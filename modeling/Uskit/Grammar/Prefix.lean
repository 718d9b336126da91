import Mathlib.Computability.Language
import Mathlib.Data.List.TakeWhile

namespace Uskit.Grammar

/-! Readers that take a word off the front of a text.  Texts that stop a reader are
those in front of which it takes a word as it takes the word alone. -/

abbrev Reader (α : Type u) (β : Type v) := List α → Option (β × List α)

namespace Reader

variable {α : Type u} {β : Type v} {γ : Type w} {reader : Reader α β}
  {words others : Language α} {stops halts : List α → Prop}

def andThen (reader : Reader α β) (next : β → Reader α γ) : Reader α γ :=
  fun text => (reader text).bind fun taken => next taken.1 taken.2

def map (make : β → γ) (reader : Reader α β) : Reader α γ :=
  fun text => (reader text).map fun taken => (make taken.1, taken.2)

/-- What is taken of the text is a word, and it is taken alike in front of another text,
if that begins like the text behind the word, or stops the reader. -/
def TakesAt (reader : Reader α β) (text : List α) (words : Language α)
    (stops : List α → Prop) : Prop :=
  ∀ value rest, reader text = some (value, rest) →
    ∃ word ∈ words, word ++ rest = text ∧
      ∀ other, other.head? = rest.head? ∨ stops other →
        reader (word ++ other) = some (value, other)

abbrev Takes (reader : Reader α β) (words : Language α) (stops : List α → Prop) : Prop :=
  ∀ text, reader.TakesAt text words stops

/-- A word is taken as a whole, if at all. -/
def Whole (reader : Reader α β) (words : Language α) (stops : List α → Prop) : Prop :=
  ∀ word ∈ words, ∀ other value rest, stops other →
    reader (word ++ other) = some (value, rest) → rest = other

/-- The reader takes whatever is of the class at the front, or nothing. -/
def Spans (reader : Reader α β) (inClass : α → Bool) : Prop :=
  ∀ text, reader text =
    (reader (text.takeWhile inClass)).map fun taken => (taken.1, text.dropWhile inClass)

/-- What begins a text is not in the class. -/
def HeadNot (inClass : α → Bool) (text : List α) : Prop :=
  ∀ x ∈ text.head?, inClass x = false

@[simp] theorem headNot_nil (inClass : α → Bool) : HeadNot inClass [] := nofun

@[simp] theorem headNot_cons {inClass : α → Bool} {x : α} {text : List α} :
    HeadNot inClass (x :: text) ↔ inClass x = false := by
  simp [HeadNot]

theorem headNot_dropWhile (inClass : α → Bool) (text : List α) :
    HeadNot inClass (text.dropWhile inClass) := by
  intro x hx
  have hhead := List.head?_dropWhile_not inClass text
  rw [Option.mem_def.mp hx] at hhead
  exact hhead

theorem HeadNot.congr {inClass : α → Bool} {text other : List α}
    (htext : HeadNot inClass text) (hhead : other.head? = text.head?) :
    HeadNot inClass other := by
  rw [HeadNot, hhead]
  exact htext

theorem HeadNot.mono {inClass others : α → Bool} {text : List α}
    (htext : HeadNot inClass text) (hclass : ∀ x, others x = true → inClass x = true) :
    HeadNot others text := by
  intro x hx
  cases hothers : others x with
  | false => rfl
  | true => exact absurd (hclass x hothers) (by simp [htext x hx])

/-- Where a class ends, a word of the class is what stands in front. -/
theorem takeWhile_append_of_headNot {inClass : α → Bool} {word other : List α}
    (hword : ∀ x ∈ word, inClass x = true) (hother : HeadNot inClass other) :
    (word ++ other).takeWhile inClass = word := by
  rw [List.takeWhile_append_of_pos hword]
  cases other with
  | nil => rw [List.takeWhile_nil, List.append_nil]
  | cons x rest =>
      rw [List.takeWhile_cons_of_neg (by simpa using headNot_cons.mp hother),
        List.append_nil]

theorem dropWhile_append_of_headNot {inClass : α → Bool} {word other : List α}
    (hword : ∀ x ∈ word, inClass x = true) (hother : HeadNot inClass other) :
    (word ++ other).dropWhile inClass = other := by
  rw [List.dropWhile_append_of_pos hword]
  cases other with
  | nil => rfl
  | cons x rest =>
      exact List.dropWhile_cons_of_neg (by simpa using headNot_cons.mp hother)

section Takes

variable {text : List α}

theorem TakesAt.mono (htakes : reader.TakesAt text words stops)
    (hwords : ∀ word ∈ words, word ∈ others) (hstops : ∀ text, halts text → stops text) :
    reader.TakesAt text others halts := by
  intro value rest hread
  obtain ⟨word, hword, happend, hother⟩ := htakes value rest hread
  refine ⟨word, hwords word hword, happend, fun other hstop => hother other ?_⟩
  exact hstop.imp_right (hstops other)

theorem Takes.mono (htakes : reader.Takes words stops)
    (hwords : ∀ word ∈ words, word ∈ others) (hstops : ∀ text, halts text → stops text) :
    reader.Takes others halts :=
  fun text => (htakes text).mono hwords hstops

/-- One at the front decides what reads the others. -/
theorem TakesAt.cons {next : Reader α β} {x : α}
    (hcons : ∀ text, reader (x :: text) = next text)
    (hnext : next.TakesAt text words stops) :
    reader.TakesAt (x :: text) ({[x]} * words) stops := by
  intro value rest hread
  rw [hcons] at hread
  obtain ⟨word, hword, rfl, hother⟩ := hnext value rest hread
  refine ⟨x :: word, Language.append_mem_mul (Set.mem_singleton [x]) hword, rfl, ?_⟩
  intro other hstop
  rw [List.cons_append, hcons]
  exact hother other hstop

/-- Nothing is taken. -/
theorem TakesAt.empty (result : β)
    (hread : ∀ other, other.head? = text.head? ∨ stops other →
      reader other = some (result, other)) :
    reader.TakesAt text 1 stops := by
  intro value rest htaken
  rw [hread text (.inl rfl)] at htaken
  cases htaken
  exact ⟨[], Language.nil_mem_one, rfl, hread⟩

theorem Takes.andThen {next : β → Reader α γ} (htakes : reader.Takes words stops)
    (hnext : ∀ value, (next value).Takes others stops) :
    (reader.andThen next).Takes (words * others) stops := by
  intro text value rest hread
  obtain ⟨⟨first, middle⟩, hfirst, hsecond⟩ := Option.bind_eq_some_iff.mp hread
  obtain ⟨word, hword, rfl, hback⟩ := htakes text first middle hfirst
  obtain ⟨more, hmore, rfl, hahead⟩ := hnext first middle value rest hsecond
  refine ⟨word ++ more, Language.append_mem_mul hword hmore,
    List.append_assoc word more rest, ?_⟩
  intro other hother
  have hhead : (more ++ other).head? = (more ++ rest).head? ∨ stops (more ++ other) := by
    cases more with
    | nil => exact hother
    | cons x more => exact .inl rfl
  rw [List.append_assoc, Reader.andThen, hback _ hhead]
  exact hahead other hother

theorem Takes.map (make : β → γ) (htakes : reader.Takes words stops) :
    (reader.map make).Takes words stops := by
  intro text value rest hread
  obtain ⟨⟨taken, left⟩, htaken, hpair⟩ := Option.map_eq_some_iff.mp hread
  cases hpair
  obtain ⟨word, hword, happend, hother⟩ := htakes text taken left htaken
  refine ⟨word, hword, happend, fun other hstop => ?_⟩
  rw [Reader.map, hother other hstop, Option.map_some]

end Takes

section Whole

theorem Whole.andThen {next : β → Reader α γ} (hwhole : reader.Whole words stops)
    (hnext : ∀ value, (next value).Whole others halts)
    (hstops : ∀ word ∈ others, ∀ other, halts other → stops (word ++ other)) :
    (reader.andThen next).Whole (words * others) halts := by
  intro word hword other value rest hother hread
  obtain ⟨front, hfront, back, hback, rfl⟩ := Language.mem_mul.mp hword
  obtain ⟨⟨first, middle⟩, hfirst, hsecond⟩ := Option.bind_eq_some_iff.mp hread
  rw [List.append_assoc] at hfirst
  obtain rfl := hwhole front hfront _ first middle (hstops back hback other hother) hfirst
  exact hnext first back hback other value rest hother hsecond

theorem Whole.union (hleft : reader.Whole words stops) (hright : reader.Whole others stops) :
    reader.Whole (words + others) stops := by
  rintro word (hword | hword)
  · exact hleft word hword
  · exact hright word hword

theorem Whole.mono (hwhole : reader.Whole words stops)
    (hstops : ∀ text, halts text → stops text) : reader.Whole words halts :=
  fun word hword other value rest hother =>
    hwhole word hword other value rest (hstops other hother)

theorem Whole.cons {next : Reader α β} {x : α}
    (hcons : ∀ text, reader (x :: text) = next text) (hnext : next.Whole words stops) :
    reader.Whole ({[x]} * words) stops := by
  intro word hword other value rest hother hread
  obtain ⟨front, rfl, back, hback, rfl⟩ := Language.mem_mul.mp hword
  rw [List.append_assoc, List.singleton_append, hcons] at hread
  exact hnext back hback other value rest hother hread

theorem Whole.empty
    (hread : ∀ other value rest, stops other → reader other = some (value, rest) →
      rest = other) :
    reader.Whole 1 stops := by
  rintro word rfl other value rest hother
  exact hread other value rest hother

theorem Whole.map (make : β → γ) (hwhole : reader.Whole words stops) :
    (reader.map make).Whole words stops := by
  intro word hword other value rest hother hread
  obtain ⟨⟨taken, left⟩, htaken, hpair⟩ := Option.map_eq_some_iff.mp hread
  cases hpair
  exact hwhole word hword other taken _ hother htaken

end Whole

section Spans

variable {begins inClass : α → Bool}

theorem Spans.append (hspans : reader.Spans inClass)
    {word other : List α} (hword : ∀ x ∈ word, inClass x = true)
    (hother : HeadNot inClass other) :
    reader (word ++ other) = (reader word).map fun taken => (taken.1, other) := by
  rw [hspans, takeWhile_append_of_headNot hword hother,
    dropWhile_append_of_headNot hword hother]

theorem Spans.rest (hspans : reader.Spans inClass) {word rest : List α} {value : β}
    (hword : ∀ x ∈ word, inClass x = true) (hread : reader word = some (value, rest)) :
    rest = [] := by
  rw [← List.append_nil word, hspans.append hword (headNot_nil inClass)] at hread
  obtain ⟨taken, -, hpair⟩ := Option.map_eq_some_iff.mp hread
  cases hpair
  rfl

/-- The words of one that begins them, and of a class behind it. -/
def headed (begins inClass : α → Bool) : Language α :=
  {word | ∃ x rest, word = x :: rest ∧ begins x = true ∧ ∀ y ∈ rest, inClass y = true}

theorem TakesAt.of_headed {x : α} {text : List α} (hbegin : begins x = true)
    (hspan : Spans (fun text => reader (x :: text)) inClass) :
    reader.TakesAt (x :: text) (headed begins inClass) (HeadNot inClass) := by
  intro value rest hread
  have hword : ∀ y ∈ text.takeWhile inClass, inClass y = true :=
    fun y hy => List.mem_takeWhile_imp hy
  have hsplit := (hspan text).symm.trans hread
  obtain ⟨taken, htaken, hpair⟩ := Option.map_eq_some_iff.mp hsplit
  cases hpair
  refine ⟨x :: text.takeWhile inClass, ⟨x, _, rfl, hbegin, hword⟩, ?_, ?_⟩
  · rw [List.cons_append, List.takeWhile_append_dropWhile]
  · intro other hother
    have hhead : HeadNot inClass other := by
      rcases hother with hother | hother
      · exact (headNot_dropWhile inClass text).congr hother
      · exact hother
    have hsame : reader (x :: text.takeWhile inClass) = some taken := htaken
    have happend := hspan.append hword hhead
    rw [hsame] at happend
    exact happend

theorem Whole.of_headed
    (hspans : ∀ x, begins x = true → Spans (fun text => reader (x :: text)) inClass) :
    reader.Whole (headed begins inClass) (HeadNot inClass) := by
  rintro word ⟨x, more, rfl, hbegin, hmore⟩ other value rest hother hread
  have happend := (hspans x hbegin).append hmore hother
  rw [List.cons_append] at hread
  rw [hread] at happend
  obtain ⟨taken, -, hpair⟩ := Option.map_eq_some_iff.mp happend.symm
  cases hpair
  rfl

end Spans

/-- The words of a value are those that are taken as a whole. -/
theorem Takes.word_iff (htakes : reader.Takes words stops)
    (hwhole : reader.Whole words stops) (hend : stops []) {word : List α} {value : β} :
    reader word = some (value, []) ↔
      word ∈ words ∧ (reader word).map Prod.fst = some value := by
  constructor
  · intro hread
    obtain ⟨taken, htaken, rfl, -⟩ := htakes word value [] hread
    rw [List.append_nil] at hread ⊢
    exact ⟨htaken, by rw [hread]; rfl⟩
  · rintro ⟨hword, hvalue⟩
    obtain ⟨⟨taken, rest⟩, hread, rfl⟩ := Option.map_eq_some_iff.mp hvalue
    have hrest := hwhole word hword [] taken rest hend (by rwa [List.append_nil])
    rw [hread, hrest]

/-- A word that is taken alone is taken in front of a text that stops the reader. -/
theorem Takes.append (htakes : reader.Takes words stops) {word other : List α}
    {value : β} (hread : reader word = some (value, [])) (hother : stops other) :
    reader (word ++ other) = some (value, other) := by
  obtain ⟨taken, -, rfl, hback⟩ := htakes word value [] hread
  rw [List.append_nil]
  exact hback other (.inr hother)

end Reader

end Uskit.Grammar
