import ValueCoverage.Proofs.Agent.Watching

/-!
# Writes to watched fields

Classes are prepared and fields are written to in any order, and any call of the tool interface may
fail meanwhile. The agent knows a field by the identity that the machine has given to it and by
nothing else. As long as no other watched field has the identity of a field, a value that is written
to the field is kept under the key of the field, if it is watched, and is not kept otherwise. A
machine need not give different identities to fields of different classes, and then a value may be
kept under the key of another field.
-/

namespace ValueCoverage

/-- What happens to classes and fields, and how calls end meanwhile. A field is told by its number
among all fields that the machine has handed out. -/
inductive FieldEvent where
  | prepared (faults : Faults) (c : ClassInfo)
  | modified (faults : Faults) (number : Nat) (tag : Char) (slot : SlotValue)

namespace FieldEvent

def faults : FieldEvent → Faults
  | prepared faults _ => faults
  | modified faults _ _ _ => faults

/-- What the agent does when it is told. -/
def handle : FieldEvent → ProcM Unit
  | prepared _ c => Agent.classPrepared c
  | modified _ number tag slot => do
    Agent.fieldModified ((← get).machine.fieldId number) tag slot

/-- The process after the event. -/
def after (e : FieldEvent) (p : AgentProcess) : AgentProcess :=
  (e.handle.run { p with machine := { p.machine with faults := e.faults } }).2

/-- The process after the events. -/
def afterAll (events : List FieldEvent) (p : AgentProcess) : AgentProcess :=
  events.foldl (fun p e => e.after p) p

/-- How many fields the machine hands out. -/
def handedOut (t : Tool) : FieldEvent → Nat
  | prepared faults c => Agent.handedOut t faults c
  | modified _ _ _ _ => 0

def handedOutBy (t : Tool) : List FieldEvent → Nat
  | [] => 0
  | e :: rest => e.handedOut t + handedOutBy t rest

/-- The fields that become watched; `first` is the number of the first field that is handed out. -/
def watched (t : Tool) (accepts : Member → Bool) (first : Nat) :
    FieldEvent → List (Nat × WatchedField)
  | prepared faults c => Agent.watchedIn t faults accepts c first
  | modified _ _ _ _ => []

def watchedBy (t : Tool) (accepts : Member → Bool) :
    (first : Nat) → List FieldEvent → List (Nat × WatchedField)
  | _, [] => []
  | first, e :: rest =>
    e.watched t accepts first ++ watchedBy t accepts (first + e.handedOut t) rest

variable {t : Tool} {accepts : Member → Bool} {first : Nat} {events : List FieldEvent}

theorem isWatched_of_mem_watched {e : FieldEvent} {w : Nat × WatchedField}
    (h : w ∈ e.watched t accepts first) :
    ∃ faults c, e = .prepared faults c ∧ ∃ i < e.handedOut t, w.1 = first + i ∧
      Agent.IsWatched t faults accepts c i w.2 := by
  cases e with
  | prepared faults c => exact ⟨faults, c, rfl, Agent.isWatched_of_mem_watchedIn h⟩
  | modified => cases h

/-- A watched field is one of a class that has been prepared. -/
theorem isWatched_of_mem_watchedBy {w : Nat × WatchedField}
    (h : w ∈ watchedBy t accepts first events) :
    ∃ before faults c rest i, events = before ++ .prepared faults c :: rest ∧
      w.1 = first + handedOutBy t before + i ∧ Agent.IsWatched t faults accepts c i w.2 := by
  induction events generalizing first with
  | nil => cases h
  | cons e events ih =>
    rcases List.mem_append.1 h with h | h
    · obtain ⟨faults, c, rfl, i, -, hnumber, hwatched⟩ := isWatched_of_mem_watched h
      exact ⟨[], faults, c, events, i, rfl, hnumber, hwatched⟩
    · obtain ⟨before, faults, c, rest, i, rfl, hnumber, hwatched⟩ := ih h
      refine ⟨e :: before, faults, c, rest, i, rfl, ?_, hwatched⟩
      rw [hnumber, handedOutBy]
      omega

theorem first_le_of_mem_watchedBy {w : Nat × WatchedField}
    (h : w ∈ watchedBy t accepts first events) : first ≤ w.1 := by
  obtain ⟨before, faults, c, rest, i, -, hnumber, -⟩ := isWatched_of_mem_watchedBy h
  omega

/-- No two watched fields have one number. -/
theorem nodup_watchedBy (t : Tool) (accepts : Member → Bool) (first : Nat)
    (events : List FieldEvent) : ((watchedBy t accepts first events).map Prod.fst).Nodup := by
  induction events generalizing first with
  | nil => exact List.nodup_nil
  | cons e events ih =>
    rw [watchedBy, List.map_append]
    refine List.nodup_append.2 ⟨?_, ih _, ?_⟩
    · cases e with
      | prepared faults c => exact Agent.nodup_watchedIn t faults accepts c first
      | modified => exact List.nodup_nil
    · intro n hn m hm heq
      obtain ⟨w, hw, rfl⟩ := List.mem_map.1 hn
      obtain ⟨v, hv, rfl⟩ := List.mem_map.1 hm
      obtain ⟨-, -, -, i, hi, hnumber, -⟩ := isWatched_of_mem_watched hw
      have hlater := first_le_of_mem_watchedBy hv
      omega

end FieldEvent

/-! ## The table of watched fields -/

/-- Watched fields by their identities; of fields with one identity, the last stays. -/
def watchTable (fieldId : Nat → Nat) (ws : List (Nat × WatchedField)) :
    OrderedMap Nat WatchedField :=
  OrderedMap.empty.insertAll (Agent.byIdentity fieldId ws)

section Table

variable {fieldId : Nat → Nat} {ws : List (Nat × WatchedField)} {n : Nat} {field : WatchedField}

theorem mem_of_get?_watchTable {id : Nat} (h : (watchTable fieldId ws).get? id = some field) :
    ∃ k, (k, field) ∈ ws ∧ fieldId k = id := by
  rcases OrderedMap.mem_of_get?_insertAll h with hmem | hget
  · obtain ⟨⟨k, w⟩, hw, heq⟩ := List.mem_map.1 hmem
    cases heq
    exact ⟨k, hw, rfl⟩
  · cases hget

theorem get?_watchTable_of_not_mem (hid : ∀ w ∈ ws, fieldId w.1 = fieldId n → w.1 = n)
    (hn : ∀ field, (n, field) ∉ ws) : (watchTable fieldId ws).get? (fieldId n) = none := by
  rw [Option.eq_none_iff_forall_ne_some]
  intro field hget
  obtain ⟨k, hk, hsame⟩ := mem_of_get?_watchTable hget
  obtain rfl : k = n := hid _ hk hsame
  exact hn field hk

theorem get?_watchTable_of_mem (hid : ∀ w ∈ ws, fieldId w.1 = fieldId n → w.1 = n)
    (hnodup : (ws.map Prod.fst).Nodup) (hn : (n, field) ∈ ws) :
    (watchTable fieldId ws).get? (fieldId n) = some field := by
  have hsome : ((watchTable fieldId ws).get? (fieldId n)).isSome := by
    refine OrderedMap.isSome_get?_insertAll (.inl ?_)
    rw [Agent.byIdentity, List.map_map]
    exact List.mem_map.2 ⟨_, hn, rfl⟩
  -- the identity leads to some watched field, and this is the only one that has it
  obtain ⟨found, hfound⟩ := Option.isSome_iff_exists.1 hsome
  obtain ⟨k, hk, hsame⟩ := mem_of_get?_watchTable hfound
  obtain rfl : k = n := hid _ hk hsame
  have heq := List.inj_on_of_nodup_map hnodup hk hn rfl
  rw [hfound, (Prod.mk.inj heq).2]

end Table

/-! ## One event -/

/-- An agent that watches the fields `ws`, on a thread that is not collecting; `first` is the number
of the next field. -/
structure AgentProcess.Watches (t : Tool) (accepts : Member → Bool) (fieldId : Nat → Nat)
    (first : Nat) (ws : List (Nat × WatchedField)) (p : AgentProcess) : Prop where
  guard_eq : p.guard = .free
  tool_eq : p.agent.bind AgentState.tool = some t
  table_eq : p.agent.map AgentState.watched = some (watchTable fieldId ws)
  run_eq : ∃ r, p.run = some r ∧ r.instrumenter.accepts = accepts ∧
    ∀ w ∈ ws, r.collector.store.contains w.2.key = true
  fieldId_eq : p.machine.fieldId = fieldId
  fieldCount_eq : p.machine.fieldCount = first

namespace AgentProcess.Watches

open ProcM

variable {t : Tool} {accepts : Member → Bool} {fieldId : Nat → Nat} {first : Nat}
  {ws : List (Nat × WatchedField)} {p : AgentProcess} {r : CoverageRun}

theorem accepts_eq (h : p.Watches t accepts fieldId first ws) : p.accepts = accepts := by
  obtain ⟨r, hr, haccepts, -⟩ := h.run_eq
  funext member
  rw [AgentProcess.accepts, hr, ← haccepts]
  rfl

/-- How calls end makes no difference. -/
theorem withFaults (h : p.Watches t accepts fieldId first ws) (faults : Faults) :
    Watches t accepts fieldId first ws { p with machine := { p.machine with faults } } :=
  ⟨h.guard_eq, h.tool_eq, h.table_eq, h.run_eq, h.fieldId_eq, h.fieldCount_eq⟩

theorem alike {q : AgentProcess} (h : p.Watches t accepts fieldId first ws) (hq : p.Alike q) :
    q.Watches t accepts fieldId first ws := by
  obtain ⟨machine, known, hm, rfl⟩ := hq
  exact ⟨h.guard_eq, h.tool_eq, h.table_eq, h.run_eq, hm.fieldId.trans h.fieldId_eq,
    hm.fieldCount.trans h.fieldCount_eq⟩

/-- A declaration takes nothing away, and declares. -/
theorem contains_declareAll (r : CoverageRun) (keys : List MemberKey) :
    let declared := keys.foldl (fun r key => (r.declare key).2) r
    declared.instrumenter = r.instrumenter ∧
      (∀ k, r.collector.store.contains k = true → declared.collector.store.contains k = true) ∧
      ∀ k ∈ keys, declared.collector.store.contains k = true := by
  induction keys generalizing r with
  | nil => exact ⟨rfl, fun _ h => h, fun _ h => nomatch h⟩
  | cons key rest ih =>
    obtain ⟨hinstrumenter, hkept, hall⟩ := ih (r.declare key).2
    have hstore : (r.declare key).2.collector.store = r.collector.store.addAll key [] := rfl
    rw [hstore] at hkept
    refine ⟨hinstrumenter, ?_, ?_⟩
    · intro k hk
      exact hkept k (Store.contains_addAll.2 (.inl hk))
    intro k hk
    rcases List.mem_cons.1 hk with rfl | hk
    · exact hkept _ (Store.contains_addAll.2 (.inr rfl))
    · exact hall k hk

theorem after_prepared (h : p.Watches t accepts fieldId first ws) (faults : Faults)
    (c : ClassInfo) :
    ((FieldEvent.prepared faults c).after p).Watches t accepts fieldId
      (first + Agent.handedOut t faults c) (ws ++ Agent.watchedIn t faults accepts c first) := by
  let q : AgentProcess := { p with machine := { p.machine with faults } }
  have hq : q.Watches t accepts fieldId first ws := h.withFaults faults
  obtain ⟨r, hr, haccepts, hdeclared⟩ := hq.run_eq
  obtain ⟨machine, -, hid, hcount, hafter⟩ :=
    Agent.run_classPrepared c (Option.isSome_iff_exists.2 ⟨r, hr⟩) hq.tool_eq
  have hfaults : q.machine.faults = faults := rfl
  rw [hq.accepts_eq, hq.fieldCount_eq, hq.fieldId_eq, hfaults] at hafter
  rw [hq.fieldCount_eq, hfaults] at hcount
  show ((Agent.classPrepared c).run q).2.Watches t accepts fieldId _ _
  rw [hafter]
  generalize Agent.watchedIn t faults accepts c first = found
  obtain ⟨hinstrumenter, hkept, hall⟩ := contains_declareAll r (found.map fun w => w.2.key)
  rw [List.foldl_map] at hinstrumenter hkept hall
  refine ⟨hq.guard_eq, ?_, ?_, ?_, hid.trans hq.fieldId_eq, hcount⟩
  · have htool := hq.tool_eq
    simp only [AgentProcess.watching]
    cases hagent : q.agent with
    | none => rw [hagent] at htool; cases htool
    | some a => rw [hagent] at htool; exact htool
  · obtain ⟨a, ha, htable⟩ := Option.map_eq_some_iff.1 hq.table_eq
    simp only [AgentProcess.watching, ha, Option.map_some, htable, watchTable, Agent.byIdentity,
      List.map_append, OrderedMap.insertAll_append]
  · have hrun : ({ q with machine }.watching (Agent.byIdentity fieldId found)).run =
        some (found.foldl (fun r w => (r.declare w.2.key).2) r) := by
      simp only [AgentProcess.watching, hr, Option.map_some, Agent.byIdentity, List.foldl_map]
    refine ⟨_, hrun, hinstrumenter ▸ haccepts, ?_⟩
    intro w hw
    rcases List.mem_append.1 hw with hw | hw
    · exact hkept _ (hdeclared w hw)
    · exact hall _ (List.mem_map.2 ⟨w, hw, rfl⟩)

theorem get?_eq (h : p.Watches t accepts fieldId first ws) (id : Nat) :
    (p.agent.bind fun a => a.watched.get? id) = (watchTable fieldId ws).get? id := by
  obtain ⟨a, ha, htable⟩ := Option.map_eq_some_iff.1 h.table_eq
  rw [ha, Option.bind_some, htable]

theorem after_modified (h : p.Watches t accepts fieldId first ws) (faults : Faults) (number : Nat)
    (tag : Char) (slot : SlotValue) :
    ((FieldEvent.modified faults number tag slot).after p).Watches t accepts fieldId first ws := by
  let q : AgentProcess := { p with machine := { p.machine with faults } }
  have hq : q.Watches t accepts fieldId first ws := h.withFaults faults
  show ((Agent.fieldModified (q.machine.fieldId number) tag slot).run q).2.Watches t accepts fieldId
    first ws
  cases hfield : q.agent.bind fun a => a.watched.get? (q.machine.fieldId number) with
  | none =>
    rw [Agent.run_fieldModified_of_none hfield]
    exact hq
  | some field =>
    obtain ⟨r, hr, haccepts, hdeclared⟩ := hq.run_eq
    refine alike ?_ (Agent.run_fieldModified_of_some hr hq.guard_eq hfield tag slot)
    exact ⟨hq.guard_eq, hq.tool_eq, hq.table_eq, ⟨_, rfl, haccepts, fun w hw =>
      CoverageRun.contains_record q.files field.key _ (hdeclared w hw)⟩, hq.fieldId_eq,
      hq.fieldCount_eq⟩

theorem after (h : p.Watches t accepts fieldId first ws) (e : FieldEvent) :
    (e.after p).Watches t accepts fieldId (first + e.handedOut t)
      (ws ++ e.watched t accepts first) := by
  cases e with
  | prepared faults c => exact h.after_prepared faults c
  | modified faults number tag slot =>
    rw [FieldEvent.watched, List.append_nil]
    exact h.after_modified faults number tag slot

/-! ## All events -/

/-- After events in any order, exactly the fields are watched that the events say. -/
theorem afterAll (h : p.Watches t accepts fieldId first ws) (events : List FieldEvent) :
    (FieldEvent.afterAll events p).Watches t accepts fieldId
      (first + FieldEvent.handedOutBy t events)
      (ws ++ FieldEvent.watchedBy t accepts first events) := by
  induction events generalizing p first ws with
  | nil =>
    rw [FieldEvent.watchedBy, List.append_nil]
    exact h
  | cons e rest ih =>
    have hrest := ih (h.after e)
    rw [List.append_assoc, Nat.add_assoc] at hrest
    exact hrest

end AgentProcess.Watches

/-! ## What is kept of a write -/

/-- Whether a machine tells of a write to a field with the descriptor like this: the tag is the
first character of the descriptor, and what is written is a primitive value or an object
accordingly. -/
def SlotValue.Fits (descriptor : String) (tag : Char) (slot : SlotValue) : Prop :=
  descriptor.toList.head? = some tag ∧
    ((Primitive.ofTag? tag).isSome ↔ ∃ bits, slot = .bits bits)

/-- The value of the kind that the descriptor says, or the text of an object. -/
def Value.IsWritten (descriptor : String) (slot : SlotValue) (v : Value) : Prop :=
  match descriptor.toList.head?.bind Primitive.ofTag?, slot with
  | some kind, .bits bits => v = kind.ofBits bits
  | none, .object o => if o.isNull then v = .null else ∃ s, v = .text s
  | _, _ => False

theorem isWritten_fieldValue {descriptor : String} {tag : Char} {slot : SlotValue}
    (h : slot.Fits descriptor tag) (p : AgentProcess) :
    ((Conversion.fieldValue tag slot).run p).1.IsWritten descriptor slot := by
  obtain ⟨htag, hbits⟩ := h
  unfold Value.IsWritten
  rw [htag, Option.bind_some]
  cases hkind : Primitive.ofTag? tag with
  | some kind =>
    rw [hkind] at hbits
    obtain ⟨bits, rfl⟩ := hbits.1 rfl
    exact Conversion.run_fieldValue_bits hkind bits p
  | none =>
    rw [hkind] at hbits
    cases slot with
    | bits bits => cases hbits.2 ⟨bits, rfl⟩
    | object o => exact Conversion.run_fieldValue_object hkind o p

namespace FieldEvent

variable {t : Tool} {accepts : Member → Bool} {fieldId : Nat → Nat} {first : Nat} {p : AgentProcess}

/-- **A value that is written to a field is kept under the key of the field.** Whatever has
happened and failed before, if no other watched field has the identity of the field, then a write
to a field that is not watched keeps nothing, and a write to a watched field keeps one value of
the kind of its descriptor, or a text, under the key under which the field was declared when its
class was prepared. -/
theorem kept_under_own_key (hp : p.Watches t accepts fieldId first []) (events : List FieldEvent)
    (faults : Faults) (number : Nat) (tag : Char) (slot : SlotValue)
    (hid : ∀ w ∈ watchedBy t accepts first events, fieldId w.1 = fieldId number → w.1 = number)
    (hfits : ∀ field, (number, field) ∈ watchedBy t accepts first events →
      slot.Fits field.descriptor tag) :
    let before := afterAll events p
    let last := (modified faults number tag slot).after before
    ((∀ field, (number, field) ∉ watchedBy t accepts first events) → last.run = before.run) ∧
      ∀ field, (number, field) ∈ watchedBy t accepts first events →
        (∃ earlier faults c later i, events = earlier ++ .prepared faults c :: later ∧
          number = first + handedOutBy t earlier + i ∧ Agent.IsWatched t faults accepts c i field) ∧
        ∃ r v, before.run = some r ∧ r.collector.store.contains field.key = true ∧
          v.IsWritten field.descriptor slot ∧
          last.run = some (r.record before.files field.key [v]).2 ∧
          ∀ k ≠ field.key, (r.record before.files field.key [v]).2.collector.store.lookup k =
            (r.ensureReady before.files).2.collector.store.lookup k := by
  intro before last
  have hbefore := hp.afterAll events
  rw [List.nil_append] at hbefore
  let q : AgentProcess := { before with machine := { before.machine with faults } }
  have hq := hbefore.withFaults faults
  have hlast : last = ((Agent.fieldModified (fieldId number) tag slot).run q).2 := by
    rw [← hq.fieldId_eq]
    rfl
  have hget := hq.get?_eq (fieldId number)
  constructor
  · intro hnone
    rw [get?_watchTable_of_not_mem hid hnone] at hget
    rw [hlast, Agent.run_fieldModified_of_none hget]
  intro field hfield
  refine ⟨isWatched_of_mem_watchedBy hfield, ?_⟩
  rw [get?_watchTable_of_mem hid (nodup_watchedBy t accepts first events) hfield] at hget
  obtain ⟨r, hr, -, hdeclared⟩ := hq.run_eq
  have halike := Agent.run_fieldModified_of_some hr hq.guard_eq hget tag slot
  refine ⟨r, _, hr, hdeclared _ hfield, isWritten_fieldValue (hfits field hfield) (q.capturing r),
    hlast ▸ halike.run_eq, ?_⟩
  intro k hk
  exact CoverageRun.lookup_record_of_ne _ _ hk

/-! ### Two classes with one field each -/

/-- A class with a single field. -/
def classWith (signature name descriptor : String) : ClassInfo :=
  ⟨some (Text.Utf8.encode signature), none,
    some [⟨some (Text.Utf8.encode name), some (Text.Utf8.encode descriptor), 1, fun _ => none⟩],
    none⟩

/-- An agent that observes one class, on a machine on which no call fails. -/
def observing (owner : String) (fieldId : Nat → Nat) : AgentProcess where
  machine := .new .none fieldId
  guard := .free
  files := .empty
  run := some
    { options := .standard, serializer := .plain, deserializer := .plain
      instrumenter := ⟨fun m => m.owner == owner, .collector, true⟩
      collector := .new .empty .coverage (some .plain), saved := false }
  agent := some ⟨some .whole, true, .empty⟩
  methodsKnown := false
  log := none

theorem watches_observing (owner : String) (fieldId : Nat → Nat) :
    (observing owner fieldId).Watches .whole (fun m => m.owner == owner) fieldId 0 [] :=
  ⟨rfl, rfl, rfl, ⟨_, rfl, rfl, fun _ hw => nomatch hw⟩, rfl, rfl⟩

/-- The classes `A` with a field `x` and `B` with a field `y` are prepared. -/
def bothPrepared : List FieldEvent :=
  [.prepared .none (classWith "LA;" "x" "I"), .prepared .none (classWith "LB;" "y" "J")]

theorem watchedBy_bothPrepared :
    watchedBy .whole (fun m => m.owner == "A") 0 bothPrepared =
      [(0, ⟨.field "A" "x" "I", "I"⟩)] := by
  decide +kernel

theorem kept_under_own_key_int :
    ∃ r, (afterAll bothPrepared (observing "A" id)).run = some r ∧
      ((modified .none 0 'I' (.bits 5)).after (afterAll bothPrepared (observing "A" id))).run =
        some (r.record (afterAll bothPrepared (observing "A" id)).files ⟨"A", "x:I"⟩
          [.int 5]).2 := by
  have hfits : SlotValue.Fits "I" 'I' (.bits 5) :=
    ⟨by decide, fun _ => ⟨5, rfl⟩, fun _ => rfl⟩
  have hkept := kept_under_own_key (watches_observing "A" id) bothPrepared .none 0 'I' (.bits 5)
    (fun _ _ h => h) (by simpa [watchedBy_bothPrepared] using hfits)
  obtain ⟨-, r, v, hr, -, hv, hlast, -⟩ :=
    hkept.2 ⟨.field "A" "x" "I", "I"⟩ (by simp [watchedBy_bothPrepared])
  obtain rfl : v = .int 5 := hv
  exact ⟨r, hr, hlast⟩

/-- No two fields of one class have one identity. -/
def DistinctInClasses (t : Tool) (fieldId : Nat → Nat) : (first : Nat) → List FieldEvent → Prop
  | _, [] => True
  | first, e :: rest =>
    (∀ i < e.handedOut t, ∀ j < e.handedOut t, fieldId (first + i) = fieldId (first + j) → i = j) ∧
      DistinctInClasses t fieldId (first + e.handedOut t) rest

/-- If a machine numbers the fields of each class by themselves, a write to a field that is not
observed is kept under the key of a field of another class. -/
theorem kept_under_other_key :
    ¬∀ (t : Tool) (accepts : Member → Bool) (fieldId : Nat → Nat) (first : Nat) (p : AgentProcess)
      (events : List FieldEvent) (faults : Faults) (number : Nat) (tag : Char) (slot : SlotValue),
      p.Watches t accepts fieldId first [] → DistinctInClasses t fieldId first events →
      (∀ field, (number, field) ∉ watchedBy t accepts first events) →
      ((modified faults number tag slot).after (afterAll events p)).run =
        (afterAll events p).run := by
  intro h
  -- both fields are the first of their classes, so they may have one identity
  have hone : ∀ e ∈ bothPrepared, e.handedOut .whole = 1 := by decide +kernel
  have hdistinct : DistinctInClasses .whole (fun _ => 0) 0 bothPrepared := by
    refine ⟨?_, ?_, trivial⟩
    · intro i hi j hj _
      rw [hone _ (by simp [bothPrepared])] at hi hj
      omega
    · intro i hi j hj _
      rw [hone _ (by simp [bothPrepared])] at hi hj
      omega
  have hsame := h _ _ _ _ _ bothPrepared .none 1 'J' (.bits 7) (watches_observing "A" fun _ => 0)
    hdistinct (by simp [watchedBy_bothPrepared])
  have hstores := congrArg (Option.map fun r => r.collector.store) hsame
  revert hstores
  decide +kernel

end FieldEvent

end ValueCoverage
