import Mathlib.Data.List.Basic

/-!
# The last write to a key

A stream of writes determines, for each key, the last value written. The value does not
depend on how writes to different keys are ordered among each other, and a store that
is updated write by write holds it for every key. The same holds of the last value that
a reader accepts, and that value survives when writes are dropped in favour of later ones.
-/

namespace OacTreeServer.Library

variable {K V : Type} [DecidableEq K]

/-- The values written to one key, in order. -/
def writesTo (k : K) (ws : List (K × V)) : List V :=
  ws.filterMap fun w ↦ if w.1 = k then some w.2 else none

/-- The last value written to a key, if there is any. -/
def lastWrite (k : K) (ws : List (K × V)) : Option V := (writesTo k ws).getLast?

/-- The writes to one key in a concatenation. -/
theorem writesTo_append (k : K) (ws vs : List (K × V)) :
    writesTo k (ws ++ vs) = writesTo k ws ++ writesTo k vs := List.filterMap_append

/-- The writes to one key, one write at a time. -/
theorem writesTo_cons (k : K) (w : K × V) (ws : List (K × V)) :
    writesTo k (w :: ws) = (if w.1 = k then [w.2] else []) ++ writesTo k ws := by
  unfold writesTo
  rw [List.filterMap_cons]
  split <;> simp_all

/-- The last write of a concatenation is that of its end, if it has any. -/
theorem lastWrite_append (k : K) (ws vs : List (K × V)) :
    lastWrite k (ws ++ vs) = (lastWrite k vs).or (lastWrite k ws) := by
  rw [lastWrite, writesTo_append, List.getLast?_append]
  rfl

/-- A store whose `set` changes exactly the given key holds, after a stream of writes,
the last value written to each key, or what it held before. -/
theorem foldl_get {S : Type} (get : S → K → Option V) (set : S → K → V → S)
    (P : S → Prop) (keys : K → Prop) (hP : ∀ s k v, P s → P (set s k v))
    (hset : ∀ s k v l, P s → keys l → get (set s k v) l = if k = l then some v else get s l)
    (ws : List (K × V)) (s : S) (hs : P s) (k : K) (hk : keys k) :
    get (ws.foldl (fun s w ↦ set s w.1 w.2) s) k = (lastWrite k ws).or (get s k) := by
  induction ws generalizing s with
  | nil => rfl
  | cons w ws ih =>
    rw [List.foldl_cons, ih _ (hP s _ _ hs), hset s _ _ _ hs hk,
      show w :: ws = [w] ++ ws from rfl, lastWrite_append, Option.or_assoc]
    congr 1
    unfold lastWrite writesTo
    by_cases h : w.1 = k <;> simp [h]

variable {W : Type}

/-- The last value written to a key that a reader accepts, as it reads it. -/
def lastAccepted (read : V → Option W) (k : K) (ws : List (K × V)) : Option W :=
  ((writesTo k ws).filterMap read).getLast?

/-- The last accepted value, one write at a time. -/
theorem lastAccepted_cons (read : V → Option W) (k : K) (w : K × V) (ws : List (K × V)) :
    lastAccepted read k (w :: ws) =
      (lastAccepted read k ws).or (if w.1 = k then read w.2 else none) := by
  unfold lastAccepted
  rw [writesTo_cons, List.filterMap_append, List.getLast?_append]
  congr 1
  split
  · cases h : read w.2 <;> simp [h]
  · rfl

/-- An accepted write leaves an accepted value. -/
theorem lastAccepted_isSome {read : V → Option W} {k : K} {u : V} {ws : List (K × V)}
    (hu : (k, u) ∈ ws) (ha : (read u).isSome) : (lastAccepted read k ws).isSome := by
  induction ws with
  | nil => cases hu
  | cons w ws ih =>
    rw [lastAccepted_cons, Option.isSome_or]
    rcases List.mem_cons.mp hu with rfl | hu
    · simp [ha]
    · simp [ih hu]

/-- The second stream drops writes that an accepted write to the same key follows in the
first one. -/
inductive Coalesced (accepts : K → V → Prop) : List (K × V) → List (K × V) → Prop where
  | nil : Coalesced accepts [] []
  | keep {ws vs : List (K × V)} (w : K × V) (h : Coalesced accepts ws vs) :
      Coalesced accepts (w :: ws) (w :: vs)
  | drop {ws vs : List (K × V)} {k : K} (v : V) {u : V} (hu : (k, u) ∈ ws)
      (ha : accepts k u) (h : Coalesced accepts ws vs) : Coalesced accepts ((k, v) :: ws) vs

/-- Dropping writes in favour of later accepted ones changes no last accepted value. -/
theorem Coalesced.lastAccepted_eq {accepts : K → V → Prop} {ws vs : List (K × V)}
    (h : Coalesced accepts ws vs) {read : V → Option W} {k : K}
    (hread : ∀ u, accepts k u → (read u).isSome) :
    lastAccepted read k vs = lastAccepted read k ws := by
  induction h with
  | nil => rfl
  | keep w h ih => rw [lastAccepted_cons, lastAccepted_cons, ih]
  | @drop ws vs l v u hu ha h ih =>
    rw [lastAccepted_cons, ih]
    by_cases hl : l = k
    · subst hl
      have hsome := lastAccepted_isSome hu (hread u ha)
      rw [if_pos rfl, Option.or_of_isSome hsome]
    · rw [if_neg hl, Option.or_none]

end OacTreeServer.Library
