import ValueCoverage.Proofs.Ordered
import ValueCoverage.Store.Basic

/-!
# What a store knows after a change

Everything that is done to a store is the adding of observations to members: declaring a member adds
none, merging adds all that the other store holds. A store that was built so has no class without
members, and two such stores agree if they know the same members and the same of each of them.
-/

namespace ValueCoverage.Store

variable {s other : Store} {key : MemberKey} {o : Observation}

/-! ## One member -/

/-- A class that is not there has no members. -/
theorem lookup_eq (s : Store) (key : MemberKey) :
    s.lookup key = ((s.owners.get? key.owner).getD .empty).get? key.member := by
  unfold lookup
  cases s.owners.get? key.owner <;> rfl

theorem lookup_update (s : Store) (key : MemberKey) (f : Observations → Observations)
    (k : MemberKey) :
    (s.update key f).lookup k =
      if k = key then some (f ((s.lookup key).getD .empty)) else s.lookup k := by
  obtain ⟨owner, member⟩ := key
  obtain ⟨owner', member'⟩ := k
  simp only [lookup_eq, update, MemberKey.mk.injEq]
  by_cases ho : owner' = owner
  · subst ho
    rw [OrderedMap.get?_alter_self, Option.getD_some]
    by_cases hm : member' = member
    · subst hm
      rw [OrderedMap.get?_alter_self, if_pos ⟨rfl, rfl⟩]
    · rw [OrderedMap.get?_alter_of_ne _ hm, if_neg fun h => hm h.2]
  · rw [OrderedMap.get?_alter_of_ne _ ho, if_neg fun h => ho h.1]

theorem update_update (s : Store) (key : MemberKey) (f g : Observations → Observations) :
    (s.update key f).update key g = s.update key fun l => g (f l) := by
  simp only [update, OrderedMap.alter_alter, Option.getD_some]

theorem update_eq_self {f : Observations → Observations} {l : Observations}
    (hlookup : s.lookup key = some l) (hf : f l = l) : s.update key f = s := by
  obtain ⟨members, howner, hmember⟩ := Option.bind_eq_some_iff.1 hlookup
  have hmembers : (members.alter key.member fun list => f (list.getD .empty)) = members :=
    OrderedMap.alter_eq_self hmember hf
  unfold update
  rw [OrderedMap.alter_eq_self howner hmembers]

theorem contains_iff : s.contains key = true ↔ ∃ l, s.lookup key = some l := by
  rw [contains, Option.isSome_iff_exists]

theorem holds_iff : s.holds key o = true ↔ ∃ l, s.lookup key = some l ∧ o ∈ l.items := by
  simp [holds, Option.any_eq_true]

/-- Two entries of one store differ in their keys. -/
theorem mem_entries_iff {e : StoreEntry} :
    e ∈ s.entries ↔ s.lookup e.key = some e.observations := by
  obtain ⟨⟨owner, member⟩, observations⟩ := e
  simp only [entries, List.mem_flatMap, List.mem_map, Prod.exists, lookup, Option.bind_eq_some_iff,
    StoreEntry.mk.injEq, MemberKey.mk.injEq, OrderedMap.get?_eq_some_iff]
  constructor
  · rintro ⟨_, members, howner, _, _, hmember, ⟨rfl, rfl⟩, rfl⟩
    exact ⟨members, howner, hmember⟩
  · rintro ⟨members, howner, hmember⟩
    exact ⟨owner, members, howner, member, observations, hmember, ⟨rfl, rfl⟩, rfl⟩

/-! ## Adding observations -/

/-- Adds observations of a member, which is then there even if there are none of them. -/
def addAll (s : Store) (key : MemberKey) (os : List Observation) : Store :=
  s.update key (·.insertAll os)

theorem declare_eq_addAll (s : Store) (key : MemberKey) : s.declare key = s.addAll key [] := rfl

theorem add_eq_addAll (s : Store) (key : MemberKey) (o : Observation) :
    s.add key o = s.addAll key [o] := rfl

theorem addAll_addAll (s : Store) (key : MemberKey) (os os' : List Observation) :
    (s.addAll key os).addAll key os' = s.addAll key (os ++ os') := by
  rw [addAll, addAll, update_update]
  simp only [← DistinctList.insertAll_append]
  rfl

theorem addAll_eq_self {os : List Observation} (hkey : s.contains key = true)
    (hos : ∀ o ∈ os, s.holds key o = true) : s.addAll key os = s := by
  obtain ⟨l, hl⟩ := contains_iff.1 hkey
  refine update_eq_self hl (DistinctList.insertAll_eq_self ?_)
  intro o ho
  obtain ⟨l', hl', hmem⟩ := holds_iff.1 (hos o ho)
  rw [hl, Option.some.injEq] at hl'
  rwa [hl']

theorem contains_addAll {os : List Observation} {k : MemberKey} :
    (s.addAll key os).contains k = true ↔ s.contains k = true ∨ k = key := by
  rw [contains_iff, contains_iff, addAll, lookup_update]
  by_cases h : k = key <;> simp [h]

theorem holds_addAll {os : List Observation} {k : MemberKey} :
    (s.addAll key os).holds k o = true ↔ s.holds k o = true ∨ k = key ∧ o ∈ os := by
  rw [holds_iff, holds_iff, addAll, lookup_update]
  by_cases h : k = key
  · subst h
    cases s.lookup k <;> simp [DistinctList.mem_items_insertAll]
  · simp [h]

/-- Adds to one member after the other. -/
def addEntries (s : Store) (es : List (MemberKey × List Observation)) : Store :=
  es.foldl (fun s e => s.addAll e.1 e.2) s

theorem addEntries_cons (s : Store) (e : MemberKey × List Observation)
    (es : List (MemberKey × List Observation)) :
    s.addEntries (e :: es) = (s.addAll e.1 e.2).addEntries es := rfl

theorem addEntries_append (s : Store) (es es' : List (MemberKey × List Observation)) :
    s.addEntries (es ++ es') = (s.addEntries es).addEntries es' :=
  List.foldl_append

theorem contains_addEntries {es : List (MemberKey × List Observation)} {k : MemberKey} :
    (s.addEntries es).contains k = true ↔ s.contains k = true ∨ ∃ e ∈ es, e.1 = k := by
  induction es generalizing s with
  | nil => simp [addEntries]
  | cons e es ih =>
    rw [addEntries_cons, ih, contains_addAll, or_assoc, @eq_comm _ k e.1]
    simp only [List.mem_cons, exists_eq_or_imp]

theorem holds_addEntries {es : List (MemberKey × List Observation)} {k : MemberKey} :
    (s.addEntries es).holds k o = true ↔
      s.holds k o = true ∨ ∃ e ∈ es, e.1 = k ∧ o ∈ e.2 := by
  induction es generalizing s with
  | nil => simp [addEntries]
  | cons e es ih =>
    rw [addEntries_cons, ih, holds_addAll, or_assoc, @eq_comm _ k e.1]
    simp only [List.mem_cons, exists_eq_or_imp]

theorem mem_keys_addEntries {es : List (MemberKey × List Observation)} {owner : String} :
    owner ∈ (s.addEntries es).owners.keys ↔
      owner ∈ s.owners.keys ∨ ∃ e ∈ es, e.1.owner = owner := by
  induction es generalizing s with
  | nil => simp [addEntries]
  | cons e es ih =>
    have hadd : owner ∈ (s.addAll e.1 e.2).owners.keys ↔
        owner ∈ s.owners.keys ∨ owner = e.1.owner := OrderedMap.mem_keys_alter
    rw [addEntries_cons, ih, hadd, or_assoc, @eq_comm _ owner e.1.owner]
    simp only [List.mem_cons, exists_eq_or_imp]

/-! ## Stores without empty classes -/

/-- Every class has a member. -/
def Full (s : Store) : Prop :=
  ∀ owner members, s.owners.get? owner = some members → members.entries ≠ []

theorem full_empty : empty.Full := by
  rintro owner members h
  cases h

theorem entries_ne_nil_of_get? {κ ν : Type} [DecidableEq κ] {m : OrderedMap κ ν} {k : κ} {v : ν}
    (h : m.get? k = some v) : m.entries ≠ [] :=
  List.ne_nil_of_mem (OrderedMap.get?_eq_some_iff.1 h)

theorem Full.update (h : s.Full) (key : MemberKey) (f : Observations → Observations) :
    (s.update key f).Full := by
  rintro owner members hget
  by_cases ho : owner = key.owner
  · subst ho
    simp only [Store.update, OrderedMap.get?_alter_self, Option.some.injEq] at hget
    subst hget
    exact entries_ne_nil_of_get? (OrderedMap.get?_alter_self ..)
  · simp only [Store.update, OrderedMap.get?_alter_of_ne _ ho] at hget
    exact h owner members hget

theorem Full.mem_keys_iff (h : s.Full) {owner : String} :
    owner ∈ s.owners.keys ↔ ∃ member, s.contains ⟨owner, member⟩ = true := by
  simp only [OrderedMap.mem_keys_iff, contains_iff, lookup, Option.bind_eq_some_iff]
  constructor
  · rintro ⟨members, hmembers⟩
    obtain ⟨e, he⟩ := List.exists_mem_of_ne_nil _ (h owner members hmembers)
    exact ⟨e.1, e.2, members, hmembers, OrderedMap.get?_eq_some_iff.2 he⟩
  · rintro ⟨member, l, members, hmembers, -⟩
    exact ⟨members, hmembers⟩

/-- Stores that know the same classes, the same members, and the same of each, agree. -/
theorem agrees_of_keys {a b : Store}
    (hkeys : ∀ owner, owner ∈ a.owners.keys ↔ owner ∈ b.owners.keys)
    (hcontains : ∀ k, a.contains k = b.contains k) (hholds : ∀ k o, a.holds k o = b.holds k o) :
    a.agrees b = true := by
  refine OrderedMap.sameEntries_of_get? hkeys ?_
  intro owner ma mb hma hmb
  have hlookup : ∀ member, a.lookup ⟨owner, member⟩ = ma.get? member ∧
      b.lookup ⟨owner, member⟩ = mb.get? member := by
    intro member
    simp [lookup, hma, hmb]
  refine OrderedMap.sameEntries_of_get? ?_ ?_
  · intro member
    have hc : a.contains ⟨owner, member⟩ = true ↔ b.contains ⟨owner, member⟩ = true := by
      rw [hcontains]
    rw [contains_iff, contains_iff, (hlookup member).1, (hlookup member).2] at hc
    rw [OrderedMap.mem_keys_iff, OrderedMap.mem_keys_iff]
    exact hc
  intro member la lb hla hlb
  refine DistinctList.sameElements_of_mem_iff ?_
  intro o
  have ho : a.holds ⟨owner, member⟩ o = true ↔ b.holds ⟨owner, member⟩ o = true := by
    rw [hholds]
  simpa [holds_iff, (hlookup member).1, (hlookup member).2, hla, hlb] using ho

/-- Without empty classes, the members tell which classes there are. -/
theorem agrees_of {a b : Store} (ha : a.Full) (hb : b.Full)
    (hcontains : ∀ k, a.contains k = b.contains k) (hholds : ∀ k o, a.holds k o = b.holds k o) :
    a.agrees b = true := by
  refine agrees_of_keys ?_ hcontains hholds
  intro owner
  rw [ha.mem_keys_iff, hb.mem_keys_iff]
  simp only [hcontains]

/-! ## Merging -/

theorem mergeMembers_eq (into members : MemberTable) :
    mergeMembers into members =
      into.alterAll (fun l list => (list.getD .empty).insertAll l.items) members.entries := rfl

theorem merge_eq (s other : Store) :
    s.merge other =
      ⟨s.owners.alterAll (fun t members => mergeMembers (members.getD .empty) t)
        other.owners.entries⟩ := rfl

/-- Nothing before what the other store holds. -/
@[simp] theorem empty_merge (s : Store) : empty.merge s = s := by
  have hmembers : ∀ t : MemberTable, mergeMembers .empty t = t := by
    intro t
    rw [mergeMembers_eq, OrderedMap.alterAll_empty]
    exact OrderedMap.mapValues_eq_self fun member l _ => l.empty_insertAll_items
  have howners : OrderedMap.empty.alterAll
      (fun t members => mergeMembers (members.getD .empty) t) s.owners.entries = s.owners := by
    rw [OrderedMap.alterAll_empty]
    exact OrderedMap.mapValues_eq_self fun owner t _ => hmembers t
  exact congrArg Store.mk howners

theorem lookup_merge (s other : Store) (key : MemberKey) :
    (s.merge other).lookup key =
      match other.lookup key with
      | none => s.lookup key
      | some l => some (((s.lookup key).getD .empty).insertAll l.items) := by
  simp only [lookup_eq, merge_eq, OrderedMap.get?_alterAll]
  cases other.owners.get? key.owner with
  | none => simp
  | some t =>
    simp only [Option.getD_some, mergeMembers_eq, OrderedMap.get?_alterAll]
    cases t.get? key.member <;> rfl

theorem contains_merge {k : MemberKey} :
    (s.merge other).contains k = true ↔ s.contains k = true ∨ other.contains k = true := by
  rw [contains_iff, contains_iff, contains_iff, lookup_merge]
  cases other.lookup k <;> simp

theorem holds_merge {k : MemberKey} :
    (s.merge other).holds k o = true ↔ s.holds k o = true ∨ other.holds k o = true := by
  rw [holds_iff, holds_iff, holds_iff, lookup_merge]
  cases other.lookup k with
  | none => simp
  | some l => cases s.lookup k <;> simp [DistinctList.mem_items_insertAll]

theorem Full.merge (hs : s.Full) (hother : other.Full) : (s.merge other).Full := by
  intro owner members hget
  rw [merge_eq, OrderedMap.get?_alterAll] at hget
  cases ht : other.owners.get? owner with
  | none =>
    rw [ht] at hget
    exact hs owner members hget
  | some t =>
    rw [ht] at hget
    obtain ⟨e, he⟩ := List.exists_mem_of_ne_nil _ (hother owner t ht)
    have hmember : members.get? e.1 ≠ none := by
      rw [← Option.some.inj hget, mergeMembers_eq, OrderedMap.get?_alterAll,
        OrderedMap.get?_eq_some_iff.2 he]
      simp
    obtain ⟨l, hl⟩ := Option.ne_none_iff_exists'.1 hmember
    exact entries_ne_nil_of_get? hl

/-- What a store holds, member by member. -/
def contents (s : Store) : List (MemberKey × List Observation) :=
  s.entries.map fun e => (e.key, e.observations.items)

/-- The members of one class that are added one by one are added to its table; a class without
members would be left out here and taken over there. -/
theorem addEntries_members (owner : String) {ms : List (String × Observations)} (h : ms ≠ [])
    (s : Store) :
    s.addEntries (ms.map fun m => (⟨owner, m.1⟩, m.2.items)) =
      ⟨s.owners.alter owner fun members =>
        (members.getD .empty).alterAll
          (fun l list => (list.getD .empty).insertAll l.items) ms⟩ := by
  induction ms generalizing s with
  | nil => exact absurd rfl h
  | cons m rest ih =>
    rw [List.map_cons, addEntries_cons]
    by_cases hrest : rest = []
    · subst hrest
      rfl
    · rw [ih hrest, addAll, update, OrderedMap.alter_alter]
      rfl

/-- Merging adds the members of the other store one by one. -/
theorem merge_eq_addEntries (s : Store) (h : other.Full) :
    s.merge other = s.addEntries other.contents := by
  have hall : ∀ {es : List (String × MemberTable)}, (∀ e ∈ es, e.2.entries ≠ []) → ∀ s : Store,
      s.addEntries (es.flatMap fun e => e.2.entries.map fun m => (⟨e.1, m.1⟩, m.2.items)) =
        ⟨s.owners.alterAll (fun t members => mergeMembers (members.getD .empty) t) es⟩ := by
    intro es hes s
    induction es generalizing s with
    | nil => rfl
    | cons e es ih =>
      rw [List.flatMap_cons, addEntries_append, addEntries_members _ (hes e (by simp)),
        ih fun e' he' => hes e' (by simp [he'])]
      rfl
  have hne : ∀ e ∈ other.owners.entries, e.2.entries ≠ [] := by
    rintro ⟨owner, members⟩ he
    exact h owner members (OrderedMap.get?_eq_some_iff.2 he)
  have hcontents : other.contents = other.owners.entries.flatMap fun e =>
      e.2.entries.map fun m => (⟨e.1, m.1⟩, m.2.items) := by
    simp only [contents, entries, List.map_flatMap, List.map_map]
    rfl
  rw [hcontents, hall hne]
  rfl

/-! ## Changing every observation -/

theorem mapObservations_eq (f : Observation → Observation) (s : Store) :
    s.mapObservations f =
      ⟨s.owners.mapValues fun t => t.mapValues fun l => .ofList (l.items.map f)⟩ := by
  have hmembers : ∀ t : MemberTable,
      OrderedMap.alterAll
        (fun (l : Observations) (list : Option Observations) =>
          (list.getD .empty).insertAll (l.items.map f)) .empty t.entries =
        t.mapValues fun l => .ofList (l.items.map f) :=
    fun t => OrderedMap.alterAll_empty _ t
  have howners : (s.mapObservations f).owners =
      s.owners.mapValues fun t => t.mapValues fun l => .ofList (l.items.map f) := by
    refine (OrderedMap.alterAll_empty (fun (t : MemberTable) (members : Option MemberTable) =>
      OrderedMap.alterAll
        (fun (l : Observations) (list : Option Observations) =>
          (list.getD .empty).insertAll (l.items.map f)) (members.getD .empty) t.entries)
      s.owners).trans ?_
    simp only [Option.getD_none, hmembers]
  exact congrArg Store.mk howners

theorem lookup_mapObservations (f : Observation → Observation) (s : Store) (key : MemberKey) :
    (s.mapObservations f).lookup key =
      (s.lookup key).map fun l => .ofList (l.items.map f) := by
  rw [mapObservations_eq]
  simp only [lookup, OrderedMap.get?_mapValues]
  cases s.owners.get? key.owner with
  | none => rfl
  | some t => simp only [Option.map_some, Option.bind_some, OrderedMap.get?_mapValues]

theorem contains_mapObservations {f : Observation → Observation} {k : MemberKey} :
    (s.mapObservations f).contains k = true ↔ s.contains k = true := by
  simp [contains, lookup_mapObservations]

theorem holds_mapObservations {f : Observation → Observation} {k : MemberKey} :
    (s.mapObservations f).holds k o = true ↔ ∃ o', s.holds k o' = true ∧ f o' = o := by
  simp only [holds_iff, lookup_mapObservations]
  cases s.lookup k <;> simp [DistinctList.ofList, DistinctList.mem_items_insertAll]

theorem Full.mapObservations (h : s.Full) (f : Observation → Observation) :
    (s.mapObservations f).Full := by
  intro owner members hget
  rw [mapObservations_eq, OrderedMap.get?_mapValues] at hget
  obtain ⟨t, ht, rfl⟩ := Option.map_eq_some_iff.1 hget
  simpa [OrderedMap.mapValues] using h owner t ht

/-- Nothing changes if no observation does. -/
theorem mapObservations_eq_self {f : Observation → Observation}
    (h : ∀ key o, s.holds key o = true → f o = o) : s.mapObservations f = s := by
  rw [mapObservations_eq]
  refine congrArg Store.mk (OrderedMap.mapValues_eq_self ?_)
  intro owner t ht
  refine OrderedMap.mapValues_eq_self ?_
  intro member l hl
  have hlookup : s.lookup ⟨owner, member⟩ = some l := by simp [lookup, ht, hl]
  have hmap : l.items.map f = l.items.map id :=
    List.map_congr_left fun o ho => h _ o (holds_iff.2 ⟨l, hlookup, ho⟩)
  rw [hmap, List.map_id]
  exact l.empty_insertAll_items

/-! ## Stores that hold part of another -/

variable {a b : Store}

/-- What `a` knows is known to `b`. -/
structure Within (a b : Store) : Prop where
  full : a.Full
  contains : ∀ k, a.contains k = true → b.contains k = true
  holds : ∀ k o, a.holds k o = true → b.holds k o = true

theorem within_empty (b : Store) : empty.Within b where
  full := full_empty
  contains _ h := nomatch h
  holds _ _ h := nomatch h

theorem Within.refl (h : a.Full) : a.Within a where
  full := h
  contains _ hk := hk
  holds _ _ ho := ho

theorem Within.agrees (h : a.Within b) (h' : b.Within a) : a.agrees b = true := by
  refine agrees_of h.full h'.full ?_ ?_
  · intro k
    exact Bool.eq_iff_iff.2 ⟨h.contains k, h'.contains k⟩
  · intro k o
    exact Bool.eq_iff_iff.2 ⟨h.holds k o, h'.holds k o⟩

theorem Within.declare (h : a.Within b) {key : MemberKey} (hkey : b.contains key = true) :
    (a.addAll key []).Within b where
  full := h.full.update key _
  contains k hk := by
    rcases contains_addAll.1 hk with hk | rfl
    · exact h.contains k hk
    · exact hkey
  holds k o ho := by
    rcases holds_addAll.1 ho with ho | ⟨-, ho⟩
    · exact h.holds k o ho
    · cases ho

theorem Within.merge (h : a.Within b) (hb : b.Full) : (a.merge b).Within b where
  full := h.full.merge hb
  contains k hk := by
    rcases contains_merge.1 hk with hk | hk
    · exact h.contains k hk
    · exact hk
  holds k o ho := by
    rcases holds_merge.1 ho with ho | ho
    · exact h.holds k o ho
    · exact ho

theorem within_merge (hb : b.Full) : b.Within (a.merge b) where
  full := hb
  contains _ hk := contains_merge.2 (.inr hk)
  holds _ _ ho := holds_merge.2 (.inr ho)

end ValueCoverage.Store
