import Mathlib.Data.List.Sublists

/-!
# Histories of events

A history lists what has happened, the oldest event first. `Before h a b` says that
some occurrence of `a` precedes some occurrence of `b`, and `InTime h a b c` that such an
occurrence of `b` is not too late, that is, not behind a `c`. Both are kept when a history
grows at its end, which is all that runs do to it.
-/

namespace OacTreeServer.Library

universe u

variable {Event : Type u}

/-- Where an event can stand in a history that has grown by one. -/
theorem concat_eq_split {h before after : List Event} {a e : Event}
    (heq : h ++ [e] = before ++ a :: after) :
    (∃ rest, after = rest ++ [e] ∧ h = before ++ a :: rest) ∨ (after = [] ∧ e = a) := by
  cases List.eq_nil_or_concat after with
  | inl hnil =>
    rw [hnil] at heq
    exact .inr ⟨hnil, by simpa using (List.append_inj' heq rfl).2⟩
  | inr hconcat =>
    obtain ⟨rest, b, rfl⟩ := hconcat
    rw [List.concat_eq_append, ← List.cons_append, ← List.append_assoc] at heq
    obtain ⟨hh, hb⟩ := List.append_inj' heq rfl
    rw [List.singleton_inj.mp hb, List.concat_eq_append]
    exact .inl ⟨rest, rfl, hh⟩

/-- In the history `h` the event `a` occurs, and `b` occurs after it. -/
def Before (h : List Event) (a b : Event) : Prop := List.Sublist [a, b] h

namespace Before

/-- An ordered pair stays ordered when the history grows. -/
theorem append {h : List Event} {a b : Event} (hb : Before h a b) (l : List Event) :
    Before (h ++ l) a b := hb.trans (List.sublist_append_left h l)

/-- What was before stays before in every longer history. -/
theorem mono {h l : List Event} {a b : Event} (hb : Before h a b) (hp : h <+: l) :
    Before l a b := by
  obtain ⟨r, rfl⟩ := hp
  exact hb.append r

/-- A new event comes after everything recorded so far. -/
theorem concat {h : List Event} {a : Event} (ha : a ∈ h) (b : Event) :
    Before (h ++ [b]) a b := by
  have := (List.singleton_sublist.mpr ha).append (List.Sublist.refl [b])
  exact this

/-- The earlier event is in the history. -/
theorem fst_mem {h : List Event} {a b : Event} (hb : Before h a b) : a ∈ h :=
  hb.subset (by simp)

/-- The later event is in the history. -/
theorem snd_mem {h : List Event} {a b : Event} (hb : Before h a b) : b ∈ h :=
  hb.subset (by simp)

/-- What precedes what, after one more event: either it did already, or the new event
is the later one. -/
theorem concat_iff {h : List Event} {a b e : Event} :
    Before (h ++ [e]) a b ↔ Before h a b ∨ (a ∈ h ∧ b = e) := by
  constructor
  · intro hb
    obtain ⟨l, r, hlr, hl, hr⟩ := List.sublist_append_iff.mp hb
    rcases l with _ | ⟨x, _ | ⟨y, l⟩⟩
    · have hlen := hr.length_le
      simp only [List.nil_append] at hlr
      rw [← hlr] at hlen
      simp at hlen
    · simp only [List.cons_append, List.nil_append, List.cons.injEq] at hlr
      obtain ⟨rfl, hbr⟩ := hlr
      rw [← hbr] at hr
      have hbe : b = e := by simpa using hr.subset (List.mem_singleton_self b)
      exact .inr ⟨hl.subset (by simp), hbe⟩
    · simp only [List.cons_append, List.cons.injEq] at hlr
      obtain ⟨rfl, rfl, hnil⟩ := hlr
      obtain ⟨rfl, rfl⟩ := List.append_eq_nil_iff.mp hnil.symm
      exact .inl hl
  · rintro (hb | ⟨ha, rfl⟩)
    · exact hb.append [e]
    · exact concat ha b

end Before

/-- In the history `h` some `b` follows an `a` and comes before every `c`. -/
def InTime (h : List Event) (a b c : Event) : Prop :=
  ∃ before after, h = before ++ b :: after ∧ a ∈ before ∧ c ∉ before

/-- What follows in a history without the deadline is in time. -/
theorem Before.inTime {h : List Event} {a b c : Event} (hb : Before h a b) (hc : c ∉ h) :
    InTime h a b c := by
  obtain ⟨early, late, rfl, ha, hlate⟩ := List.cons_sublist_iff.mp hb
  obtain ⟨between, after, rfl⟩ := List.append_of_mem (List.singleton_sublist.mp hlate)
  refine ⟨early ++ between, after, (List.append_assoc ..).symm, List.mem_append_left _ ha, ?_⟩
  simp only [List.mem_append, not_or] at hc ⊢
  exact ⟨hc.1, hc.2.1⟩

namespace InTime

/-- What is in time follows. -/
theorem before {h : List Event} {a b c : Event} (ht : InTime h a b c) : Before h a b := by
  obtain ⟨early, after, rfl, ha, -⟩ := ht
  rw [List.append_cons]
  exact (Before.concat ha b).append after

/-- What is in time stays so in every longer history. -/
theorem mono {h l : List Event} {a b c : Event} (ht : InTime h a b c) (hp : h <+: l) :
    InTime l a b c := by
  obtain ⟨early, after, rfl, ha, hc⟩ := ht
  obtain ⟨more, rfl⟩ := hp
  exact ⟨early, after ++ more, List.append_assoc .., ha, hc⟩

/-- Nothing is in time any more behind the deadline. -/
theorem of_append {h more : List Event} {a b c : Event} (ht : InTime (h ++ more) a b c)
    (hc : c ∈ h) : InTime h a b c := by
  obtain ⟨early, after, heq, ha, hlate⟩ := ht
  cases List.append_eq_append_iff.mp heq with
  | inl hshort =>
    obtain ⟨rest, rfl, -⟩ := hshort
    exact absurd (List.mem_append_left rest hc) hlate
  | inr hlong =>
    obtain ⟨rest, rfl, hrest⟩ := hlong
    cases rest with
    | nil =>
      rw [List.append_nil] at hc
      exact absurd hc hlate
    | cons e rest =>
      obtain ⟨rfl, -⟩ := List.cons.inj hrest
      exact ⟨early, rest, rfl, ha, hlate⟩

end InTime
end OacTreeServer.Library
