-- SUMMARY: Informer caches, the events they deliver, and what a watcher keeps of the cached objects.
import Lookout.Lib.Map

/-!
# Informers

An informer caches the objects of one resource under their names and tells its handlers
of every change. A watcher keeps a memory of its own, under other identities, and keeps
track of the cache as long as every cached object is in that memory.
-/

namespace Informer

variable {κ ι α : Type} [DecidableEq κ]

/-- What a handler is told. An addition and an update carry the new object, a deletion
    the object as it was cached last. -/
inductive Event (α : Type) where
  | upsert (o : α)
  | delete (o : α)
  deriving DecidableEq, Repr

/-- The object an event is about. -/
def Event.object : Event α → α
  | .upsert o => o
  | .delete o => o

/-- What the event leaves of its object. -/
def Event.current : Event α → Option α
  | .upsert o => some o
  | .delete _ => none

/-- The cache after an event. -/
def deliver (key : α → κ) (cache : Map κ α) : Event α → Map κ α
  | .upsert o => cache.insert (key o) o
  | .delete o => cache.erase (key o)

theorem lookup_deliver (key : α → κ) (cache : Map κ α) (e : Event α) (k : κ) :
    (deliver key cache e).lookup k = if k = key e.object then e.current else cache.lookup k := by
  cases e with
  | upsert o => exact Map.lookup_insert cache (key o) k o
  | delete o => exact Map.lookup_erase cache (key o) k

theorem keyed_deliver {key : α → κ} {cache : Map κ α}
    (h : ∀ k o, cache.lookup k = some o → key o = k) (e : Event α) :
    ∀ k o, (deliver key cache e).lookup k = some o → key o = k := by
  cases e with
  | upsert o =>
    exact (Map.writes_insert _ _ _).forall_lookup (fun _ ho => Option.some.inj ho ▸ rfl) h
  | delete o => exact (Map.writes_erase _ _).forall_lookup nofun h

/-- No two cached objects share an identity, and a deletion carries what is cached. -/
def Conforms (key : α → κ) (id : α → ι) (cache : Map κ α) : Event α → Prop
  | .upsert o => ∀ k o', cache.lookup k = some o' → id o' = id o → k = key o
  | .delete o => cache.lookup (key o) = some o

/-- An object that satisfies `p` is in the cache. -/
def Cached (p : α → Prop) (cache : Map κ α) : Prop := ∃ k o, cache.lookup k = some o ∧ p o

/-- The watcher remembers every object of the cache that it watches. -/
structure Tracks (key : α → κ) (id : α → ι) (watched : α → Prop) (cache : Map κ α)
    (known : ι → Prop) : Prop where
  keyed : ∀ k o, cache.lookup k = some o → key o = k
  distinct : ∀ k k' o o', cache.lookup k = some o → cache.lookup k' = some o' →
    id o = id o' → k = k'
  known : ∀ k o, cache.lookup k = some o → watched o → known (id o)

variable {key : α → κ} {id : α → ι} {watched : α → Prop} {cache : Map κ α} {known known' : ι → Prop}

theorem Tracks.empty : Tracks key id watched (∅ : Map κ α) known := by
  constructor <;> intros <;> simp_all

section

variable (h : Tracks key id watched cache known)

include h

/-- A memory of the same objects may grow, and shrink by what is not cached. -/
theorem Tracks.of_known
    (hkeep : ∀ k o, cache.lookup k = some o → watched o → known (id o) → known' (id o)) :
    Tracks key id watched cache known' where
  keyed := h.keyed
  distinct := h.distinct
  known k o hk hw := hkeep k o hk hw (h.known k o hk hw)

variable {o : α} {β : Type}

theorem Tracks.upsert (hconf : Conforms key id cache (.upsert o)) (hgrow : ∀ i, known i → known' i)
    (hnew : watched o → known' (id o)) :
    Tracks key id watched (deliver key cache (.upsert o)) known' := by
  refine ⟨keyed_deliver h.keyed _, ?_, ?_⟩
  · intro k k' o₁ o₂ hk hk' hid
    rcases Map.of_lookup_insert hk with ⟨rfl, rfl⟩ | ⟨-, hold⟩
    · rcases Map.of_lookup_insert hk' with ⟨rfl, rfl⟩ | ⟨-, hold'⟩
      · rfl
      · exact (hconf k' o₂ hold' hid.symm).symm
    · rcases Map.of_lookup_insert hk' with ⟨rfl, rfl⟩ | ⟨-, hold'⟩
      · exact hconf k o₁ hold hid
      · exact h.distinct k k' o₁ o₂ hold hold' hid
  · intro k o' hk hw
    rcases Map.of_lookup_insert hk with ⟨rfl, rfl⟩ | ⟨-, hk⟩
    · exact hnew hw
    · exact hgrow _ (h.known k o' hk hw)

theorem Tracks.delete (hconf : Conforms key id cache (.delete o))
    (hkeep : ∀ o', watched o' → id o' ≠ id o → known (id o') → known' (id o')) :
    Tracks key id watched (deliver key cache (.delete o)) known' := by
  refine ⟨keyed_deliver h.keyed _, ?_, ?_⟩
  · intro k k' o₁ o₂ hk hk'
    exact h.distinct k k' o₁ o₂ (Map.of_lookup_erase hk).2 (Map.of_lookup_erase hk').2
  · intro k o' hk hw
    obtain ⟨hne, hk⟩ := Map.of_lookup_erase hk
    refine hkeep o' hw ?_ (h.known k o' hk hw)
    exact fun hid => hne (h.distinct k (key o) o' o hk hconf hid)

end

/-- A mirror that is written along with the cache keeps track of it. -/
theorem Tracks.mirror_upsert [DecidableEq ι] {mirror : Map ι β}
    (h : Tracks key id watched cache fun i => mirror.lookup i ≠ none)
    (hconf : Conforms key id cache (.upsert o)) (b : β) :
    Tracks key id watched (deliver key cache (.upsert o))
      fun i => (mirror.insert (id o) b).lookup i ≠ none := by
  refine h.upsert hconf (fun i hi => ?_) fun _ => ?_
  · rw [Map.lookup_insert]
    split
    · exact Option.some_ne_none b
    · exact hi
  · simp

theorem Tracks.mirror_delete [DecidableEq ι] {mirror : Map ι β}
    (h : Tracks key id watched cache fun i => mirror.lookup i ≠ none)
    (hconf : Conforms key id cache (.delete o)) :
    Tracks key id watched (deliver key cache (.delete o))
      fun i => (mirror.erase (id o)).lookup i ≠ none :=
  h.delete hconf fun o' _ hne hi => by rwa [Map.lookup_erase, if_neg hne]

/-- A cache whose objects are found under their names and have an identity each. -/
def Sound (key : α → κ) (id : α → ι) (cache : Map κ α) : Prop :=
  Tracks key id (fun _ => False) cache (fun _ => False)

theorem Sound.empty : Sound key id (∅ : Map κ α) := Tracks.empty

theorem Sound.upsert (h : Sound key id cache) (hconf : Conforms key id cache (.upsert o)) :
    Sound key id (deliver key cache (.upsert o)) :=
  Tracks.upsert h hconf (fun _ hi => hi) fun hw => hw

theorem Sound.delete (h : Sound key id cache) (o : α) :
    Sound key id (deliver key cache (.delete o)) :=
  ⟨keyed_deliver h.keyed _, fun k k' o₁ o₂ hk hk' => h.distinct k k' o₁ o₂
    (Map.of_lookup_erase hk).2 (Map.of_lookup_erase hk').2, fun _ _ _ hw => hw⟩

end Informer
