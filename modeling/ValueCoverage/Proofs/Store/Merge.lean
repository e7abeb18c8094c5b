import ValueCoverage.Proofs.Store.History

/-!
# Merging is an ordered union

To merge a store into another is to tell the other what it holds. So a merged store holds what both
were told, one history behind the other: classes, members and observations of the first store stay
where they were, and what only the second has comes behind them. The laws of merging are those of
histories that are put behind one another.
-/

namespace ValueCoverage.Store

variable {s t : Store} {history later : List Mention}

/-! ## Histories of merged stores -/

/-- A store has been told what it holds. -/
theorem tells_asMentions (s : Store) : s.Tells s.asMentions := by
  have h := tells_mentions s.asMentions
  rwa [← merge_eq_mentions, empty_merge] at h

/-- Two histories of one store may stand for each other behind any other history. -/
theorem Tells.append_congr {front later' : List Mention} (h : s.Tells (front ++ later))
    (ht : t.Tells later) (ht' : t.Tells later') : s.Tells (front ++ later') where
  owners_eq := by
    rw [h.owners_eq, List.map_append, List.map_append, eraseDups_append_filter,
      eraseDups_append_filter, ← ht.owners_eq, ← ht'.owners_eq]
  members_eq owner := by
    rw [h.members_eq, List.filterMap_append, List.filterMap_append, eraseDups_append_filter,
      eraseDups_append_filter, ← ht.members_eq, ← ht'.members_eq]
  observations_eq key := by
    rw [h.observations_eq, List.flatMap_append, List.flatMap_append, eraseDups_append_filter,
      eraseDups_append_filter, ← ht.observations_eq, ← ht'.observations_eq]

/-- A merged store holds what both stores have been told. -/
theorem Tells.merge (hs : s.Tells history) (ht : t.Tells later) :
    (s.merge t).Tells (history ++ later) := by
  rw [merge_eq_mentions]
  exact (hs.mentions t.asMentions).append_congr t.tells_asMentions ht

/-- What is told twice is told once. -/
theorem Tells.append_self (h : s.Tells history) : s.Tells (history ++ history) := by
  have hnone : ∀ {α : Type} [BEq α] [LawfulBEq α] (xs : List α),
      (xs ++ xs).eraseDups = xs.eraseDups := by
    intro α _ _ xs
    rw [eraseDups_append_filter, List.filter_eq_nil_iff.2 (by simp), List.append_nil]
  refine ⟨?_, ?_, ?_⟩
  · rw [List.map_append, hnone, h.owners_eq]
  · intro owner
    rw [List.filterMap_append, hnone, h.members_eq]
  · intro key
    rw [List.flatMap_append, hnone, h.observations_eq]

/-- A store with changed observations has been told the changed history. -/
theorem Tells.mapObservations (h : s.Tells history) (f : Observation → Observation) :
    (s.mapObservations f).Tells (history.map (Mention.map f)) where
  owners_eq := by
    have hnames : Mention.ownerName ∘ Mention.map f = Mention.ownerName := by
      funext m
      cases m <;> rfl
    have howners : (s.mapObservations f).ownerNames = s.ownerNames := by
      rw [mapObservations_eq, ownerNames, ownerNames, OrderedMap.keys, OrderedMap.mapValues,
        List.map_map]
      rfl
    rw [List.map_map, hnames, howners, h.owners_eq]
  members_eq owner := by
    have hnames : Mention.memberOf owner ∘ Mention.map f = Mention.memberOf owner := by
      funext m
      cases m <;> rfl
    have hmembers : ((s.mapObservations f).membersOf owner).map Prod.fst =
        (s.membersOf owner).map Prod.fst := by
      rw [mapObservations_eq, membersOf, membersOf, OrderedMap.get?_mapValues]
      cases s.owners.get? owner with
      | none => rfl
      | some members =>
        simp only [Option.map_some, Option.getD_some, OrderedMap.mapValues, List.map_map]
        rfl
    rw [List.filterMap_map, hnames, hmembers, h.members_eq]
  observations_eq key := by
    have htold : (history.map (Mention.map f)).flatMap (Mention.observationsOf key) =
        (history.flatMap (Mention.observationsOf key)).map f := by
      rw [List.flatMap_map, List.map_flatMap]
      refine List.flatMap_congr ?_
      intro m _
      cases m with
      | owner name => rfl
      | member key' os =>
        simp only [Mention.map, Mention.observationsOf]
        split <;> rfl
    have hitems : (s.mapObservations f).observationsOf key =
        ((s.observationsOf key).map f).eraseDups := by
      rw [observationsOf, observationsOf, lookup_mapObservations]
      cases s.lookup key with
      | none => rfl
      | some l => exact DistinctList.items_ofList _
    rw [htold, hitems, h.observations_eq, eraseDups_map_eraseDups]

/-- Merging a changed store tells what it held, changed. -/
theorem merge_mapObservations (s t : Store) (f : Observation → Observation) :
    s.merge (t.mapObservations f) = s.mentions (t.asMentions.map (Mention.map f)) :=
  (s.tells_asMentions.merge (t.tells_asMentions.mapObservations f)).eq
    (s.tells_asMentions.mentions _)

/-- Without empty classes, a store is what its members are given one after the other. -/
theorem Full.tells_contents (h : s.Full) :
    s.Tells (s.contents.map fun e => .member e.1 e.2) := by
  have htold := tells_mentions (s.contents.map fun e => .member e.1 e.2)
  have hmentions : empty.mentions (s.contents.map fun e => .member e.1 e.2) = s := by
    rw [mentions, List.foldl_map]
    exact (merge_eq_addEntries empty h).symm.trans s.empty_merge
  rwa [hmentions] at htold

theorem Full.mapObservations_eq_addEntries (h : s.Full) (f : Observation → Observation) :
    s.mapObservations f = empty.addEntries (s.contents.map fun e => (e.1, e.2.map f)) := by
  have htold := h.tells_contents.mapObservations f
  rw [List.map_map] at htold
  rw [htold.eq (tells_mentions _), mentions, addEntries, List.foldl_map, List.foldl_map]
  rfl

/-! ## Laws of merging -/

theorem ownerNames_merge (s t : Store) :
    (s.merge t).ownerNames = s.ownerNames ++ t.ownerNames.filter (· ∉ s.ownerNames) := by
  have h := s.tells_asMentions.merge t.tells_asMentions
  rw [h.owners_eq, List.map_append, eraseDups_append_filter, ← s.tells_asMentions.owners_eq,
    ← t.tells_asMentions.owners_eq]

/-- The names of the members of a class, first come first. -/
def memberNames (s : Store) (owner : String) : List String := (s.membersOf owner).map Prod.fst

theorem memberNames_merge (s t : Store) (owner : String) :
    (s.merge t).memberNames owner =
      s.memberNames owner ++ (t.memberNames owner).filter (· ∉ s.memberNames owner) := by
  have h := s.tells_asMentions.merge t.tells_asMentions
  have hs : s.memberNames owner = _ := s.tells_asMentions.members_eq owner
  have ht : t.memberNames owner = _ := t.tells_asMentions.members_eq owner
  rw [memberNames, h.members_eq, List.filterMap_append, eraseDups_append_filter, ← hs, ← ht]

theorem observationsOf_merge (s t : Store) (key : MemberKey) :
    (s.merge t).observationsOf key =
      s.observationsOf key ++ (t.observationsOf key).filter (· ∉ s.observationsOf key) := by
  have h := s.tells_asMentions.merge t.tells_asMentions
  rw [h.observations_eq, List.flatMap_append, eraseDups_append_filter,
    ← s.tells_asMentions.observations_eq, ← t.tells_asMentions.observations_eq]

theorem merge_empty (s : Store) : s.merge empty = s := rfl

theorem merge_self (s : Store) : s.merge s = s :=
  (s.tells_asMentions.merge s.tells_asMentions).eq s.tells_asMentions.append_self

theorem merge_assoc (s t u : Store) : (s.merge t).merge u = s.merge (t.merge u) := by
  have hleft := (s.tells_asMentions.merge t.tells_asMentions).merge u.tells_asMentions
  have hright := s.tells_asMentions.merge (t.tells_asMentions.merge u.tells_asMentions)
  rw [← List.append_assoc] at hright
  exact hleft.eq hright

/-- To add to a store that will be merged is to add to the merged store. -/
theorem merge_addAll (s t : Store) (key : MemberKey) (os : List Observation) :
    s.merge (t.addAll key os) = (s.merge t).addAll key os := by
  have htold : (t.addAll key os).Tells (t.asMentions ++ [.member key os]) :=
    t.tells_asMentions.mention (.member key os)
  have hleft := s.tells_asMentions.merge htold
  rw [← List.append_assoc] at hleft
  exact hleft.eq ((s.tells_asMentions.merge t.tells_asMentions).mention (.member key os))

/-- The order in which two stores are merged decides on nothing but the order of what is held. -/
theorem agrees_merge_comm (s t : Store) : (s.merge t).agrees (t.merge s) = true := by
  refine agrees_of_keys ?_ ?_ ?_
  · intro owner
    have hleft : (s.merge t).owners.keys = _ := s.ownerNames_merge t
    have hright : (t.merge s).owners.keys = _ := t.ownerNames_merge s
    rw [hleft, hright]
    by_cases hs : owner ∈ s.ownerNames <;> by_cases ht : owner ∈ t.ownerNames <;> simp [hs, ht]
  · intro key
    rw [Bool.eq_iff_iff, contains_merge, contains_merge, or_comm]
  · intro key o
    rw [Bool.eq_iff_iff, holds_merge, holds_merge, or_comm]

theorem mapObservations_merge (f : Observation → Observation) (s t : Store) :
    (s.merge t).mapObservations f = (s.mapObservations f).merge (t.mapObservations f) := by
  have hleft := (s.tells_asMentions.merge t.tells_asMentions).mapObservations f
  rw [List.map_append] at hleft
  exact hleft.eq
    ((s.tells_asMentions.mapObservations f).merge (t.tells_asMentions.mapObservations f))

/-- **Merging is an ordered union.** Classes, members and observations of the first store come
first, in its order, and behind them come those that only the second store has, in its order.
Nothing that either store knows is lost, a member without observations included, and nothing is
there twice. But for the order of what is held, it does not matter which store is merged into which;
for all else not even the order changes. -/
theorem merge_ordered_union (a b c : Store) :
    ((a.merge b).ownerNames = a.ownerNames ++ b.ownerNames.filter (· ∉ a.ownerNames) ∧
      (∀ owner, (a.merge b).memberNames owner =
        a.memberNames owner ++ (b.memberNames owner).filter (· ∉ a.memberNames owner)) ∧
      ∀ key, (a.merge b).observationsOf key =
        a.observationsOf key ++ (b.observationsOf key).filter (· ∉ a.observationsOf key)) ∧
    (∀ key, ((a.merge b).contains key = true ↔ a.contains key = true ∨ b.contains key = true) ∧
      (∀ o, (a.merge b).holds key o = true ↔ a.holds key o = true ∨ b.holds key o = true) ∧
      ((a.merge b).observationsOf key).Nodup) ∧
    ((a.merge b).agrees (b.merge a) = true ∧ (a.merge b).merge c = a.merge (b.merge c) ∧
      a.merge a = a ∧ empty.merge a = a ∧ a.merge empty = a) ∧
    ∀ codec : Codec,
      (a.merge b).canonicalize codec = (a.canonicalize codec).merge (b.canonicalize codec) := by
  refine ⟨⟨a.ownerNames_merge b, a.memberNames_merge b, a.observationsOf_merge b⟩, ?_, ?_, ?_⟩
  · intro key
    exact ⟨contains_merge, fun o => holds_merge, DistinctList.nodup _⟩
  · exact ⟨a.agrees_merge_comm b, a.merge_assoc b c, a.merge_self, a.empty_merge, a.merge_empty⟩
  · intro codec
    exact mapObservations_merge codec.canonical a b

end ValueCoverage.Store
