import ValueCoverage.Proofs.Store.Update

/-!
# What a store has been told

A store is told of classes and of members, with observations or without. It keeps what it is told in
the order of first mention: the classes, the members of each class, and the observations of each
member. This says all that there is to say about a store that was empty at first.
-/

namespace ValueCoverage

/-! ## First occurrences -/

/-- Inserting keeps the order of first occurrence. -/
theorem DistinctList.items_insertAll_of_eraseDups {α : Type} [DecidableEq α] [BEq α] [LawfulBEq α]
    {l : DistinctList α} {xs : List α} (h : l.items = xs.eraseDups) (as : List α) :
    (l.insertAll as).items = (xs ++ as).eraseDups := by
  induction as generalizing l xs with
  | nil => rw [List.append_nil, ← h]; rfl
  | cons a as ih =>
    have hfirst : (l.insert a).items = (xs ++ [a]).eraseDups := by
      rw [items_insert, h]
      by_cases ha : a ∈ xs
      · rw [if_pos (List.mem_eraseDups.2 ha), eraseDups_concat_of_mem ha]
      · rw [if_neg (mt List.mem_eraseDups.1 ha), eraseDups_concat_of_not_mem ha]
    rw [insertAll_cons, ih hfirst, List.append_assoc, List.singleton_append]

theorem DistinctList.items_ofList {α : Type} [DecidableEq α] [BEq α] [LawfulBEq α] (as : List α) :
    (ofList as).items = as.eraseDups := by
  have hempty : (empty : DistinctList α).items = ([] : List α).eraseDups := rfl
  exact items_insertAll_of_eraseDups hempty as

/-- A key that is new goes behind the others. -/
theorem OrderedMap.keys_alter_of_eraseDups {κ ν : Type} [DecidableEq κ] [BEq κ] [LawfulBEq κ]
    {m : OrderedMap κ ν} {ks : List κ} (h : m.keys = ks.eraseDups) (k : κ) (f : Option ν → ν) :
    (m.alter k f).keys = (ks ++ [k]).eraseDups := by
  rw [keys_alter, h]
  by_cases hk : k ∈ ks
  · rw [if_pos (List.mem_eraseDups.2 hk), eraseDups_concat_of_mem hk]
  · rw [if_neg (mt List.mem_eraseDups.1 hk), eraseDups_concat_of_not_mem hk]

theorem OrderedMap.get?_eq_none_iff {κ ν : Type} [DecidableEq κ] {m : OrderedMap κ ν} {k : κ} :
    m.get? k = none ↔ k ∉ m.keys := by
  rw [mem_keys_iff, ← Option.isSome_iff_exists, Option.not_isSome_iff_eq_none]

/-- A map is its keys, in their order, with their values. -/
theorem OrderedMap.ext_get? {κ ν : Type} [DecidableEq κ] {a b : OrderedMap κ ν}
    (hkeys : a.keys = b.keys) (hget : ∀ k, a.get? k = b.get? k) : a = b := by
  have hall : ∀ {l l' : List (κ × ν)}, l.map Prod.fst = l'.map Prod.fst →
      (l.map Prod.fst).Nodup → (∀ k, l.lookup k = l'.lookup k) → l = l' := by
    intro l
    induction l with
    | nil =>
      intro l' hl _ _
      exact (List.map_eq_nil_iff.1 hl.symm).symm
    | cons e rest ih =>
      intro l' hl hnodup hlookup
      obtain ⟨k, v⟩ := e
      obtain ⟨⟨k', v'⟩, rest', rfl⟩ : ∃ e' rest', l' = e' :: rest' :=
        List.exists_cons_of_ne_nil (by rintro rfl; cases hl)
      obtain ⟨rfl, hrest⟩ := List.cons.inj hl
      obtain ⟨hk, hnodup'⟩ := List.nodup_cons.1 hnodup
      have hv := hlookup k
      rw [List.lookup_cons_self, List.lookup_cons_self, Option.some.injEq] at hv
      subst hv
      rw [ih hrest hnodup']
      intro k₂
      by_cases h : k₂ = k
      · subst h
        -- the key stands in neither rest
        have hnone : ∀ {es : List (κ × ν)}, k₂ ∉ es.map Prod.fst → es.lookup k₂ = none := by
          intro es hes
          rw [List.lookup_eq_none_iff]
          intro e he
          rw [bne_iff_ne]
          exact fun heq => hes (heq ▸ List.mem_map_of_mem he)
        rw [hnone hk, hnone (hrest ▸ hk)]
      · have hk₂ := hlookup k₂
        rwa [List.lookup_cons, List.lookup_cons, beq_false_of_ne h] at hk₂
  exact OrderedMap.ext (hall hkeys a.nodup hget)

/-! ## Mentions -/

/-- One thing that a store is told. -/
inductive Mention where
  | owner (name : String)
  | member (key : MemberKey) (os : List Observation)

namespace Mention

/-- The class that is mentioned. -/
def ownerName : Mention → String
  | owner name => name
  | member key _ => key.owner

/-- The member of the class that is mentioned. -/
def memberOf (name : String) : Mention → Option String
  | owner _ => none
  | member key _ => if key.owner = name then some key.member else none

/-- The observations of the member that are told. -/
def observationsOf (key : MemberKey) : Mention → List Observation
  | owner _ => []
  | member key' os => if key' = key then os else []

/-- The mention with `f` of every observation. -/
def map (f : Observation → Observation) : Mention → Mention
  | owner name => owner name
  | member key os => member key (os.map f)

theorem map_id : map id = id := by
  funext m
  cases m <;> simp [map]

end Mention

namespace Store

variable {s other : Store}

/-- The observations of a member; a member that is not there has none. -/
def observationsOf (s : Store) (key : MemberKey) : List Observation :=
  ((s.lookup key).getD .empty).items

theorem holds_iff_mem {key : MemberKey} {o : Observation} :
    s.holds key o = true ↔ o ∈ s.observationsOf key := by
  rw [holds_iff, observationsOf]
  cases s.lookup key with
  | none => simp
  | some l => simp

/-- Tells a store one thing. -/
def mention (s : Store) : Mention → Store
  | .owner name => ⟨s.owners.alter name (·.getD .empty)⟩
  | .member key os => s.addAll key os

/-- Tells a store one thing after the other. -/
def mentions (s : Store) (history : List Mention) : Store := history.foldl mention s

theorem mentions_cons (s : Store) (m : Mention) (history : List Mention) :
    s.mentions (m :: history) = (s.mention m).mentions history := rfl

theorem mentions_append (s : Store) (history later : List Mention) :
    s.mentions (history ++ later) = (s.mentions history).mentions later :=
  List.foldl_append

/-- A store that holds what it was told, everything in the order of first mention. -/
structure Tells (s : Store) (history : List Mention) : Prop where
  owners_eq : s.ownerNames = (history.map Mention.ownerName).eraseDups
  members_eq (owner : String) : (s.membersOf owner).map Prod.fst =
    (history.filterMap (Mention.memberOf owner)).eraseDups
  observations_eq (key : MemberKey) : s.observationsOf key =
    (history.flatMap (Mention.observationsOf key)).eraseDups

theorem tells_empty : empty.Tells [] where
  owners_eq := rfl
  members_eq _ := rfl
  observations_eq _ := rfl

theorem membersOf_alter (s : Store) (name owner : String) (f : Option MemberTable → MemberTable) :
    membersOf ⟨s.owners.alter name f⟩ owner =
      if owner = name then (f (s.owners.get? name)).entries else s.membersOf owner := by
  by_cases h : owner = name
  · subst h
    rw [if_pos rfl, membersOf, OrderedMap.get?_alter_self]
    rfl
  · rw [if_neg h, membersOf, OrderedMap.get?_alter_of_ne _ h]
    rfl

theorem observationsOf_addAll (s : Store) (key k : MemberKey) (os : List Observation) :
    (s.addAll key os).observationsOf k =
      if k = key then (((s.lookup key).getD .empty).insertAll os).items
      else s.observationsOf k := by
  rw [observationsOf, addAll, lookup_update]
  by_cases h : k = key
  · rw [if_pos h, if_pos h]
    rfl
  · rw [if_neg h, if_neg h]
    rfl

theorem observationsOf_mention_owner (s : Store) (name : String) (key : MemberKey) :
    (s.mention (.owner name)).observationsOf key = s.observationsOf key := by
  have hlookup : (s.mention (.owner name)).lookup key = s.lookup key := by
    rw [lookup_eq, lookup_eq, mention]
    by_cases h : key.owner = name
    · rw [h, OrderedMap.get?_alter_self, Option.getD_some]
    · rw [OrderedMap.get?_alter_of_ne _ h]
  rw [observationsOf, hlookup, observationsOf]

/-- What a store is told goes behind what it was told before. -/
theorem Tells.mention {history : List Mention} (h : s.Tells history) (m : Mention) :
    (s.mention m).Tells (history ++ [m]) := by
  cases m with
  | owner name =>
    refine ⟨?_, ?_, ?_⟩
    · rw [List.map_append]
      exact OrderedMap.keys_alter_of_eraseDups h.owners_eq name _
    · intro owner
      rw [List.filterMap_append]
      have hnone : [Mention.owner name].filterMap (Mention.memberOf owner) = [] := rfl
      rw [hnone, List.append_nil, ← h.members_eq owner, Store.mention, membersOf_alter]
      by_cases ho : owner = name
      · rw [if_pos ho, ho]
        rfl
      · rw [if_neg ho]
    · intro key
      have hnone : [Mention.owner name].flatMap (Mention.observationsOf key) = [] := rfl
      rw [List.flatMap_append, hnone, List.append_nil, ← h.observations_eq key,
        observationsOf_mention_owner]
  | member key os =>
    refine ⟨?_, ?_, ?_⟩
    · rw [List.map_append]
      exact OrderedMap.keys_alter_of_eraseDups h.owners_eq key.owner _
    · intro owner
      rw [List.filterMap_append, List.filterMap_cons, Mention.memberOf]
      rw [Store.mention, addAll, update, membersOf_alter]
      by_cases ho : key.owner = owner
      · rw [if_pos ho.symm, if_pos ho]
        refine OrderedMap.keys_alter_of_eraseDups ?_ key.member _
        rw [← h.members_eq owner, ← ho]
        rfl
      · rw [if_neg (Ne.symm ho), if_neg ho, List.filterMap_nil, List.append_nil,
          h.members_eq owner]
    · intro k
      rw [List.flatMap_append, List.flatMap_cons, List.flatMap_nil, List.append_nil,
        Mention.observationsOf, Store.mention, observationsOf_addAll]
      by_cases hk : k = key
      · subst hk
        rw [if_pos rfl, if_pos rfl]
        exact DistinctList.items_insertAll_of_eraseDups (h.observations_eq k) os
      · rw [if_neg hk, if_neg (Ne.symm hk), List.append_nil, h.observations_eq k]

theorem Tells.mentions {history : List Mention} (h : s.Tells history) (later : List Mention) :
    (s.mentions later).Tells (history ++ later) := by
  induction later generalizing s history with
  | nil => rwa [List.append_nil]
  | cons m later ih =>
    have hrest := ih (h.mention m)
    rwa [List.append_assoc, List.singleton_append] at hrest

/-- A store that was empty holds just what it was told. -/
theorem tells_mentions (history : List Mention) : (empty.mentions history).Tells history :=
  tells_empty.mentions history

theorem Tells.table_eq {a b : Store} {history : List Mention} (ha : a.Tells history)
    (hb : b.Tells history) {owner : String} {ta tb : MemberTable}
    (hta : a.owners.get? owner = some ta) (htb : b.owners.get? owner = some tb) : ta = tb := by
  have hmembers := (ha.members_eq owner).trans (hb.members_eq owner).symm
  rw [membersOf, membersOf, hta, htb] at hmembers
  have hkeys : ta.keys = tb.keys := hmembers
  refine OrderedMap.ext_get? hkeys ?_
  intro member
  by_cases hmem : member ∈ ta.keys
  · obtain ⟨la, hla⟩ := OrderedMap.mem_keys_iff.1 hmem
    obtain ⟨lb, hlb⟩ := OrderedMap.mem_keys_iff.1 (hkeys ▸ hmem)
    have hitems := (ha.observations_eq ⟨owner, member⟩).trans
      (hb.observations_eq ⟨owner, member⟩).symm
    have hla' : a.lookup ⟨owner, member⟩ = some la := Option.bind_eq_some_iff.2 ⟨ta, hta, hla⟩
    have hlb' : b.lookup ⟨owner, member⟩ = some lb := Option.bind_eq_some_iff.2 ⟨tb, htb, hlb⟩
    rw [observationsOf, observationsOf, hla', hlb'] at hitems
    rw [hla, hlb]
    exact congrArg some (DistinctList.ext hitems)
  · rw [OrderedMap.get?_eq_none_iff.2 hmem, OrderedMap.get?_eq_none_iff.2 (hkeys ▸ hmem)]

/-- What a store was told in order leaves nothing open. -/
theorem Tells.eq {a b : Store} {history : List Mention} (ha : a.Tells history)
    (hb : b.Tells history) : a = b := by
  have hkeys : a.owners.keys = b.owners.keys := ha.owners_eq.trans hb.owners_eq.symm
  have howners : a.owners = b.owners := by
    refine OrderedMap.ext_get? hkeys ?_
    intro owner
    by_cases hmem : owner ∈ a.owners.keys
    · obtain ⟨ta, hta⟩ := OrderedMap.mem_keys_iff.1 hmem
      obtain ⟨tb, htb⟩ := OrderedMap.mem_keys_iff.1 (hkeys ▸ hmem)
      rw [hta, htb, ha.table_eq hb hta htb]
    · rw [OrderedMap.get?_eq_none_iff.2 hmem, OrderedMap.get?_eq_none_iff.2 (hkeys ▸ hmem)]
  cases a
  cases b
  cases howners
  rfl

/-! ## Merging as mentions -/

/-- What a store holds, class by class and member by member. -/
def asMentions (s : Store) : List Mention :=
  s.owners.entries.flatMap fun e =>
    .owner e.1 :: e.2.entries.map fun m => .member ⟨e.1, m.1⟩ m.2.items

/-- Members of a class that was just mentioned are added to its table. -/
theorem mentions_members (s : Store) (owner : String) (f : Option MemberTable → MemberTable)
    (ms : List (String × Observations)) :
    mentions ⟨s.owners.alter owner f⟩ (ms.map fun m => .member ⟨owner, m.1⟩ m.2.items) =
      ⟨s.owners.alter owner fun members =>
        (f members).alterAll (fun l list => (list.getD .empty).insertAll l.items) ms⟩ := by
  induction ms generalizing f with
  | nil => rfl
  | cons m rest ih =>
    rw [List.map_cons, mentions_cons, mention, addAll, update, OrderedMap.alter_alter, ih]
    rfl

/-- Merging tells a store what the other one holds. -/
theorem merge_eq_mentions (s other : Store) : s.merge other = s.mentions other.asMentions := by
  -- class after class, from whatever the store has been told of the classes before
  have hall : ∀ (es : List (String × MemberTable)) (s : Store),
      s.mentions (es.flatMap fun e =>
          .owner e.1 :: e.2.entries.map fun m => .member ⟨e.1, m.1⟩ m.2.items) =
        ⟨s.owners.alterAll (fun t members => mergeMembers (members.getD .empty) t) es⟩ := by
    intro es
    induction es with
    | nil => exact fun s => rfl
    | cons e es ih =>
      intro s
      rw [List.flatMap_cons, mentions_append, mentions_cons, mention, mentions_members, ih]
      rfl
  rw [merge_eq, asMentions, hall]

end Store

end ValueCoverage
