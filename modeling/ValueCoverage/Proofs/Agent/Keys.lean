import ValueCoverage.Proofs.Agent.Conversion
import ValueCoverage.Proofs.Agent.Watching
import ValueCoverage.Proofs.Capture.Declarations

/-!
# Under which key a declared member is stored

A class is instrumented before the machine loads it, and its names are decoded from the class file.
Later they come back from the machine: those of methods as string constants that instrumented code
hands over, those of fields when the class has been prepared. The machine passes both in modified
UTF-8, and they are read as UTF-8. So what comes back is what is seen of a name, and that is the
name if its characters are spelled alike in both encodings, and only then.
-/

namespace ValueCoverage

open Text (pointed replacement)
open Text.ModifiedUtf8 (encode seen misread Plain PlainChar)
open Text.Utf8 (pointedTo)

/-! ## What is seen of names -/

theorem Text.pointed_seen (s : String) : pointed (seen s) = seen (pointed s) := by
  have hchar : ∀ c : Char, (misread c).map (fun c => if c = '/' then '.' else c) =
      misread (if c = '/' then '.' else c) := by
    intro c
    by_cases hslash : c = '/'
    · subst hslash
      decide
    by_cases hplain : PlainChar c
    · simp [Text.ModifiedUtf8.misread_of_plain hplain, hslash]
    · rw [if_neg hslash]
      unfold misread
      by_cases hzero : c = '\x00'
      · simp [hzero, replacement]
      · have hlarge : ¬c.toNat < 0x10000 := by
          intro h
          exact hplain ⟨hzero, h⟩
        simp [hzero, hlarge, replacement]
  apply String.toList_inj.1
  simp only [pointed, Text.replaceChar, Text.ModifiedUtf8.toList_seen, String.toList_ofList,
    List.map_flatMap, List.flatMap_map, hchar]

/-- The binary name of a class is told apart from the signature that has been read. -/
theorem binaryName?_seen (internal : String) :
    binaryName? (seen ("L" ++ internal ++ ";")) = some (seen (pointed internal)) := by
  have hseen : (seen ("L" ++ internal ++ ";")).toList =
      ['L'] ++ ((seen internal).toList ++ [';']) := by
    have hl : seen "L" = "L" := by decide
    have hr : seen ";" = ";" := by decide
    rw [Text.ModifiedUtf8.seen_append, Text.ModifiedUtf8.seen_append, hl, hr]
    simp
  have hstart : Text.dropPrefix? ['L'] (seen ("L" ++ internal ++ ";")).toList =
      some ((seen internal).toList ++ [';']) := Text.dropPrefix?_eq_some_iff.2 hseen
  unfold binaryName?
  simp only [hstart, Option.bind_eq_bind, Option.bind_some, Text.dropSuffix?_append,
    String.ofList_toList, Text.pointed_seen]

namespace MemberKey

/-- What is seen of a key. -/
def seen (k : MemberKey) : MemberKey :=
  ⟨Text.ModifiedUtf8.seen k.owner, Text.ModifiedUtf8.seen k.member⟩

/-- All characters of the key are spelled alike in both encodings. -/
def Plain (k : MemberKey) : Prop :=
  Text.ModifiedUtf8.Plain k.owner ∧ Text.ModifiedUtf8.Plain k.member

theorem seen_eq_self_iff {k : MemberKey} : k.seen = k ↔ k.Plain := by
  obtain ⟨owner, member⟩ := k
  simp only [seen, Plain, MemberKey.mk.injEq, Text.ModifiedUtf8.seen_eq_self_iff]

theorem seen_field (owner name descriptor : String) :
    (field owner name descriptor).seen = field (Text.ModifiedUtf8.seen owner)
      (Text.ModifiedUtf8.seen name) (Text.ModifiedUtf8.seen descriptor) := by
  have hcolon : Text.ModifiedUtf8.seen ":" = ":" := by decide
  simp only [seen, field, Text.ModifiedUtf8.seen_append, hcolon]

end MemberKey

/-! ## Calls that store -/

/-- On a thread that is not collecting, the call stores one observation, and under the key. -/
def ProcM.Stores (key : MemberKey) (x : ProcM Unit) (p : AgentProcess) : Prop :=
  ∀ r : CoverageRun, p.run = some r → p.guard = .free →
    ∃ o, { p with run := some (r.record p.files key o).2 }.Alike (x.run p).2

/-- A process that notes members and keeps no values. -/
def noting (agent : Option AgentState) : AgentProcess where
  machine := .new .none id
  guard := .free
  files := .empty
  run := some
    { options := .standard, serializer := .plain, deserializer := .plain
      instrumenter := ⟨fun _ => true, .collector, true⟩
      collector := .new .empty .template none, saved := false }
  agent := agent
  methodsKnown := false
  log := none

/-- A call stores under one key at most: which member has been noted tells the key. -/
theorem ProcM.Stores.unique {key key' : MemberKey} {x : ProcM Unit} {agent : Option AgentState}
    (h : Stores key x (noting agent)) (h' : Stores key' x (noting agent)) : key = key' := by
  obtain ⟨o, ho⟩ := h _ rfl rfl
  obtain ⟨o', ho'⟩ := h' _ rfl rfl
  have hruns := ho.run_eq.symm.trans ho'.run_eq
  have hnoted : Store.empty.addAll key [] = Store.empty.addAll key' [] :=
    Option.some.inj (congrArg (Option.map fun r : CoverageRun => r.collector.store) hruns)
  have hcontains : (Store.empty.addAll key' []).contains key = true := by
    rw [← hnoted]
    exact Store.contains_addAll.2 (.inr rfl)
  rcases Store.contains_addAll.1 hcontains with hempty | hkey
  · cases hempty
  · exact hkey

/-! ## Methods -/

/-- A string constant as the machine passes it. -/
def JavaObject.ofConstant (s : String) : JavaObject := .string (some (encode s))

/-- The texts of a call are passed as strings, and its array as some array. -/
inductive Passes {α : Type} : Call α → ObservedCall → Prop where
  | texts (method : MethodName) (owner member descriptor : String) (address : Nat)
      (arrays : List (ObjectArray α)) (args : JavaObject) :
      Passes ⟨method, [.text owner, .text member, .text descriptor, .array address], arrays⟩
        (.mk (.ofConstant owner) (.ofConstant member) (.ofConstant descriptor) args)

/-- In whatever frame a method is entered, the code ends with a call of the target, and that call
stores an observation under the key, whichever arguments it passes. -/
def Activation.StoresUnder (key : MemberKey) (pool : ConstantPool) (target : Target)
    (params : List FieldType) (isStatic : Bool) (code : List Instruction) : Prop :=
  ∀ {α : Type} (receiver : α) (arg : Nat → α) (spare : List (Slot α)),
    ∃ (s : Activation α) (boxes : List (Call α)) (call : Call α),
      run pool code (entered isStatic receiver params arg spare) = .ok s ∧
      s.calls = boxes ++ [call] ∧ (∀ box ∈ boxes, box.method ≠ target.methodName) ∧
      call.method = target.methodName ∧ (∃ observed, Passes call observed) ∧
      ∀ observed, Passes call observed → ∀ p, ProcM.Stores key (Conversion.perform observed) p

namespace Activation

open Capture

variable {key : MemberKey} {pool : ConstantPool} {target : Target} {params : List FieldType}
  {isStatic : Bool} {code : List Instruction}

/-- A prefix stores under what is seen of the key that its constants mean. -/
theorem prefixCode_storesUnder {refs : CaptureRefs} {descriptor : String}
    (h : refs.Denote key descriptor params target pool) (hcount : params.length ≤ 32767)
    (isStatic : Bool) :
    StoresUnder key.seen pool target params isStatic (prefixCode params isStatic refs) := by
  intro α receiver arg spare
  obtain ⟨s, boxes, array, hrun, -, -, hcalls, -, hboxes, -⟩ :=
    prefixCode_handsOver h hcount isStatic receiver arg spare
  refine ⟨s, boxes, _, hrun, hcalls, hboxes, rfl, ⟨_, .texts _ _ _ _ _ _ .null⟩, ?_⟩
  intro observed hpasses p
  cases hpasses with
  | texts method owner member descriptor address arrays args =>
    intro r hr hg
    have hstored := Conversion.run_perform hr hg (encode key.owner) (encode key.member)
      (encode descriptor) args
    rw [Text.ModifiedUtf8.pointedTo_encode, Text.ModifiedUtf8.pointedTo_encode] at hstored
    exact hstored

/-- Code stores under one key at most. -/
theorem StoresUnder.unique {key' : MemberKey}
    (h : StoresUnder key pool target params isStatic code)
    (h' : StoresUnder key' pool target params isStatic code) : key = key' := by
  obtain ⟨s, boxes, call, hrun, hcalls, -, -, ⟨observed, hpasses⟩, hstores⟩ := h () (fun _ => ()) []
  obtain ⟨s', boxes', call', hrun', hcalls', -, -, -, hstores'⟩ := h' () (fun _ => ()) []
  obtain rfl : s = s' := Except.ok.inj (hrun.symm.trans hrun')
  obtain ⟨-, hcall⟩ := List.append_inj' (hcalls.symm.trans hcalls') rfl
  cases hcall
  exact (hstores observed hpasses (noting none)).unique (hstores' observed hpasses (noting none))

end Activation

namespace Instrumenter

open Capture

variable {r : Instrumenter} {c : ClassFile} {w : Rewriting} {d : Declaration}

/-- A method that has been declared stores under the key: its code in the rewritten class is a
prefix that does, and the old code behind it. -/
def MethodStoresUnder (r : Instrumenter) (c : ClassFile) (w : Rewriting) (d : Declaration)
    (key : MemberKey) : Prop :=
  ∃ i ∈ w.methods.instrumented, ∃ (before after : ClassMember) (code : Code) (type : MethodType)
    (refs : CaptureRefs),
    c.methods[i]? = some before ∧ w.methods.file.methods[i]? = some after ∧
    before.code? = some code ∧ Descriptor.readMethod d.descriptor = .ok type ∧
    refs.Denote d.key d.descriptor type.params r.target w.methods.file.pool ∧
    after.code?.map Code.bytes = some (paddedPrefix (prefixCode type.params
      (before.access.has .staticBit) refs) ++ code.bytes) ∧
    Activation.StoresUnder key w.methods.file.pool r.target type.params
      (before.access.has .staticBit) (prefixCode type.params (before.access.has .staticBit) refs)

/-- A declared method stores under what is seen of its key, and under no other key. -/
theorem Treats.methodStoresUnder_iff {ts : List Treatment} (h : Treats r c w ts)
    (hd : d ∈ w.methods.declared) {key : MemberKey} :
    MethodStoresUnder r c w d key ↔ key = d.key.seen := by
  obtain ⟨i, hi, method, type, before, after, code, refs, rfl, hbefore, hafter, -, htype, hp⟩ :=
    h.exists_of_mem_declared hd
  have hcount : type.params.length ≤ 32767 := by
    have hlength : 4 * type.params.length + 6 ≤ greatestCode := hp.length_params_le
    unfold greatestCode at hlength
    omega
  constructor
  · -- whichever method and constants these are, the constants mean the declared key, too
    rintro ⟨i', -, before', after', code', type', refs', -, -, -, htype', hdenote, -, hstores⟩
    cases Except.ok.inj (htype'.symm.trans htype)
    exact hstores.unique (Activation.prefixCode_storesUnder hdenote hcount _)
  · rintro rfl
    refine ⟨i, hi, before, after, code, type, refs, hbefore, hafter, hp.body, htype, hp.denote, ?_,
      Activation.prefixCode_storesUnder hp.denote hcount _⟩
    rw [hp.code?_after]
    rfl

end Instrumenter

/-! ## Fields -/

/-- The machine tells of a field what the class file says of it. -/
structure FieldInfo.Tells (c : ClassFile) (m : ClassMember) (f : FieldInfo) : Prop where
  name : ∃ name, c.pool.getUtf8 m.name = .ok name ∧ f.name = some (encode name)
  descriptor : ∃ descriptor, c.pool.getUtf8 m.descriptor = .ok descriptor ∧
    f.descriptor = some (encode descriptor)

/-- The machine tells of a class what its class file says, each name in modified UTF-8. -/
structure ClassInfo.Tells (c : ClassFile) (info : ClassInfo) : Prop where
  signature : ∃ name, c.name = .ok name ∧ info.signature = some (encode ("L" ++ name ++ ";"))
  fields : ∀ (i : Nat) (m : ClassMember) (f : FieldInfo), c.fields[i]? = some m →
    (info.fields.getD [])[i]? = some f → f.Tells c m

namespace Agent

theorem ownerOf?_of_tells {c : ClassFile} {info : ClassInfo} {owner told : String}
    (h : info.Tells c) (howner : c.name.map pointed = .ok owner) {t : Tool} {faults : Faults}
    (htold : ownerOf? t faults info = some told) : told = seen owner := by
  obtain ⟨name, hname, hsignature⟩ := h.signature
  rw [hname] at howner
  cases howner
  obtain ⟨signature, hread, hbinary⟩ := Option.bind_eq_some_iff.1 htold
  unfold Tool.signatureOf? at hread
  split at hread
  · cases hread
    rw [hsignature, Tool.told, Option.map_some, Option.getD_some,
      Text.ModifiedUtf8.pointedTo_encode, binaryName?_seen] at hbinary
    exact (Option.some.inj hbinary).symm
  · cases hread

/-- A field is watched under what is seen of the key that the class file says. -/
theorem IsWatched.key_eq {c : ClassFile} {info : ClassInfo} {owner : String} (h : info.Tells c)
    (howner : c.name.map pointed = .ok owner) {t : Tool} {faults : Faults}
    {accepts : Member → Bool} {i : Nat} {field : WatchedField} {m : ClassMember} {member : Member}
    (hwatched : IsWatched t faults accepts info i field) (hm : c.fields[i]? = some m)
    (hmember : Instrumenter.memberOf c owner m = .ok member) :
    field.key = (MemberKey.field owner member.name member.descriptor).seen := by
  obtain ⟨told, f, htold, hf, -, -, rfl⟩ := hwatched
  obtain ⟨hname, hdescriptor, -⟩ := Instrumenter.memberOf_eq_ok hmember
  obtain ⟨⟨name, hname', hnamed⟩, ⟨descriptor, hdescriptor', hdescribed⟩⟩ := h.fields i m f hm hf
  cases Except.ok.inj (hname.symm.trans hname')
  cases Except.ok.inj (hdescriptor.symm.trans hdescriptor')
  rw [MemberKey.seen_field, ownerOf?_of_tells h howner htold, hnamed, hdescribed]
  simp only [Tool.told, Option.map_some, Option.getD_some, Text.ModifiedUtf8.pointedTo_encode]

end Agent

/-- What a machine tells of a field on which no call fails. -/
def ClassFile.fieldInfo (c : ClassFile) (m : ClassMember) : FieldInfo where
  name := (c.pool.getUtf8 m.name).toOption.map encode
  descriptor := (c.pool.getUtf8 m.descriptor).toOption.map encode
  modifiers := 0
  answers := fun _ => none

/-- What a machine tells of a class on which no call fails. -/
def ClassFile.classInfo (c : ClassFile) : ClassInfo where
  signature := c.name.toOption.map fun name => encode ("L" ++ name ++ ";")
  generic := none
  fields := some (c.fields.map c.fieldInfo)
  fieldCount := none

namespace Instrumenter

variable {r : Instrumenter} {c : ClassFile} {w : Rewriting}

/-- Where fields are declared, all names of fields can be told. -/
theorem Treats.classInfo_tells {ts : List Treatment} (h : Treats r c w ts) {d : Declaration}
    (hd : d ∈ w.fields) : c.classInfo.Tells c where
  signature := by
    obtain ⟨name, hname, -⟩ := map_eq_ok.1 h.owner
    exact ⟨name, hname, by simp [ClassFile.classInfo, hname, Except.toOption]⟩
  fields i m f hm hf := by
    have hfield : f = c.fieldInfo m := by
      simpa [ClassFile.classInfo, hm, eq_comm] using hf
    have hdeclared := declareFields_declared h.fields
    have hon : r.fields = true := by
      by_contra hoff
      rw [hdeclared.off (Bool.eq_false_iff.2 hoff)] at hd
      cases hd
    obtain ⟨members, hmembers, -⟩ := hdeclared.on hon
    obtain ⟨member, hmember⟩ := exists_of_mapM hmembers (List.mem_of_getElem? hm)
    obtain ⟨hname, hdescriptor, -⟩ := memberOf_eq_ok hmember
    subst hfield
    exact ⟨⟨_, hname, by simp [ClassFile.fieldInfo, hname, Except.toOption]⟩,
      ⟨_, hdescriptor, by simp [ClassFile.fieldInfo, hdescriptor, Except.toOption]⟩⟩

/-- A field that has been declared stores under the key: whenever its class has been prepared and
the field is watched, a write to the watched field does. -/
def FieldStoresUnder (c : ClassFile) (w : Rewriting) (d : Declaration) (key : MemberKey) : Prop :=
  ∃ (i : Nat) (m : ClassMember) (member : Member), c.fields[i]? = some m ∧
    memberOf c w.owner m = .ok member ∧ d = fieldDeclaration w.owner member ∧
    ∀ info : ClassInfo, info.Tells c → ∀ (t : Tool) (faults : Faults) (accepts : Member → Bool)
      (first : Nat) (field : WatchedField),
      (first + i, field) ∈ Agent.watchedIn t faults accepts info first →
      ∀ (p : AgentProcess) (id : Nat) (tag : Char) (slot : SlotValue),
        (p.agent.bind fun a => a.watched.get? id) = some field →
        ProcM.Stores key (Agent.fieldModified id tag slot) p

/-- If no call fails and everything is observed, every field is watched. -/
theorem exists_watched {owner : String} (howner : c.name.map pointed = .ok owner) {i : Nat}
    {m : ClassMember} (hm : c.fields[i]? = some m) :
    ∃ field, (0 + i, field) ∈
      Agent.watchedIn Tool.whole .none (fun _ => true) c.classInfo 0 := by
  obtain ⟨name, hname, -⟩ := map_eq_ok.1 howner
  have hknown : Agent.ownerOf? Tool.whole .none c.classInfo = some (seen (pointed name)) := by
    have hsignature : Tool.whole.signatureOf? .none c.classInfo =
        some (seen ("L" ++ name ++ ";")) := by
      rw [← Text.ModifiedUtf8.pointedTo_encode]
      simp [Tool.signatureOf?, ClassFile.classInfo, hname, Except.toOption, Tool.grants,
        Tool.copies, Tool.told, Tool.whole, Faults.none]
    rw [Agent.ownerOf?, hsignature, Option.bind_some, binaryName?_seen]
  have hfields : Tool.whole.fieldsOf? .none c.classInfo 0 =
      some ((c.fields.map c.fieldInfo).zipIdx.map fun f => (0 + f.2, f.1)) := by
    simp [Tool.fieldsOf?, ClassFile.classInfo, Tool.grants, Tool.copies, Tool.whole,
      Faults.none, List.take_of_length_le]
  have hanswers : ∀ f ∈ (c.fields.map c.fieldInfo).zipIdx.map fun f => (0 + f.2, f.1),
      f.2.answers = fun _ => none := by
    intro f hf
    obtain ⟨⟨info, k⟩, hmem, rfl⟩ := List.mem_map.1 hf
    obtain ⟨m', -, rfl⟩ := List.mem_map.1 (List.fst_mem_of_mem_zipIdx hmem)
    rfl
  rw [Agent.watchedIn, hknown, hfields]
  simp only [Option.getD_some, Agent.watchedOf_all _ hanswers]
  have hmem : (c.fieldInfo m, i) ∈ (c.fields.map c.fieldInfo).zipIdx := by
    rw [List.mem_zipIdx_iff_getElem?, List.getElem?_map, hm]
    rfl
  exact ⟨_, List.mem_map.2 ⟨_, List.mem_map.2 ⟨_, hmem, rfl⟩, rfl⟩⟩

/-- A write to a watched field stores under what is seen of the key that has been declared. -/
theorem stores_of_watched {i : Nat} {m : ClassMember} {member : Member} {info : ClassInfo}
    {t : Tool} {faults : Faults} {accepts : Member → Bool} {first : Nat} {field : WatchedField}
    {p : AgentProcess} {id : Nat} (howner : c.name.map pointed = .ok w.owner)
    (hm : c.fields[i]? = some m) (hmember : memberOf c w.owner m = .ok member)
    (htells : info.Tells c)
    (hfield : (first + i, field) ∈ Agent.watchedIn t faults accepts info first)
    (hget : (p.agent.bind fun a => a.watched.get? id) = some field) (tag : Char)
    (slot : SlotValue) :
    ProcM.Stores (fieldDeclaration w.owner member).key.seen
      (Agent.fieldModified id tag slot) p := by
  intro r hr hg
  obtain ⟨i', -, hnumber, hwatched⟩ := Agent.isWatched_of_mem_watchedIn hfield
  obtain rfl : i = i' := Nat.add_left_cancel hnumber
  have hstored := Agent.run_fieldModified_of_some hr hg hget tag slot
  rw [hwatched.key_eq htells howner hm hmember] at hstored
  exact ⟨_, hstored⟩

/-- A declared field stores under what is seen of its key, and under no other key. -/
theorem Treats.fieldStoresUnder_iff {ts : List Treatment} (h : Treats r c w ts) {d : Declaration}
    (hd : d ∈ w.fields) {key : MemberKey} : FieldStoresUnder c w d key ↔ key = d.key.seen := by
  constructor
  · -- a class of which all is told without a fault shows the key of its field
    rintro ⟨i, m, member, hm, hmember, rfl, hstores⟩
    have htells := h.classInfo_tells hd
    obtain ⟨field, hfield⟩ := exists_watched h.owner hm
    let agent : AgentState := ⟨none, true, OrderedMap.empty.insert 0 field⟩
    have hget : ((noting (some agent)).agent.bind fun a => a.watched.get? 0) = some field := by
      show (OrderedMap.empty.insert 0 field).get? 0 = some field
      rw [OrderedMap.get?_insert, if_pos rfl]
    exact (hstores _ htells _ _ _ _ _ hfield _ _ 'I' (.bits 0) hget).unique
      (stores_of_watched h.owner hm hmember htells hfield hget _ _)
  · rintro rfl
    obtain ⟨i, m, member, hm, hmember, rfl⟩ := h.exists_of_mem_fields hd
    refine ⟨i, m, member, hm, hmember, rfl, ?_⟩
    intro info htells t faults accepts first field hfield p id tag slot hget
    exact stores_of_watched h.owner hm hmember htells hfield hget tag slot

/-- **A declared member stores under what is seen of its key.** The instrumented code of a method
hands its names over as string constants, and the names of a field come from the machine when its
class has been prepared; both come in modified UTF-8 and are read as UTF-8. What is seen of a key is
the key if all its characters are spelled alike in both encodings, and only then; and if the names
hold none of the marks that a key is made with, no two such members share a key. -/
theorem stores_under_seen_key {bytes : Bytes} (hread : ClassFile.read bytes = .ok c)
    (hw : r.rewrite c = .ok w) :
    (∀ d ∈ w.methods.declared, ∀ key, MethodStoresUnder r c w d key ↔ key = d.key.seen) ∧
      (∀ d ∈ w.fields, ∀ key, FieldStoresUnder c w d key ↔ key = d.key.seen) ∧
      (∀ d ∈ w.fields ++ w.methods.declared, (d.key.seen = d.key ↔ d.key.Plain) ∧
        ∃ a : DeclaredMember, a.DeclaredIn c w ∧ a.declaration = d) ∧
      ∀ {bytes' : Bytes} {r' : Instrumenter} {c' : ClassFile} {w' : Rewriting},
        ClassFile.read bytes' = .ok c' → r'.rewrite c' = .ok w' →
          ∀ a b : DeclaredMember, a.DeclaredIn c w → b.DeclaredIn c' w' →
          a.Unmarked → b.Unmarked → a.declaration.key.Plain → b.declaration.key.Plain →
          a.declaration.key.seen = b.declaration.key.seen → a = b := by
  obtain ⟨ts, h⟩ := Treats.of_read hread hw
  refine ⟨?_, ?_, ?_, ?_⟩
  · intro d hd key
    exact h.methodStoresUnder_iff hd
  · intro d hd key
    exact h.fieldStoresUnder_iff hd
  · intro d hd
    exact ⟨MemberKey.seen_eq_self_iff, h.exists_declaredIn hd⟩
  intro bytes' r' c' w' hread' hw' a b ha hb hunmarked hunmarked' hplain hplain' hseen
  obtain ⟨ts', h'⟩ := Treats.of_read hread' hw'
  rw [MemberKey.seen_eq_self_iff.2 hplain, MemberKey.seen_eq_self_iff.2 hplain'] at hseen
  exact DeclaredMember.eq_of_key_eq hunmarked hunmarked' (h.described ha) (h'.described hb) hseen

/-- The fields and the methods that are declared of a class when everything is observed. -/
def declaredOf (bytes : Bytes) : Option (List Declaration × List Declaration) := do
  let c ← (ClassFile.read bytes).toOption
  let w ← (observant.rewrite c).toOption
  return (w.fields, w.methods.declared)

theorem exists_of_declaredOf (bytes : Bytes) (fields methods : List Declaration)
    (h : declaredOf bytes = some (fields, methods)) :
    ∃ c w, ClassFile.read bytes = .ok c ∧ observant.rewrite c = .ok w ∧ w.fields = fields ∧
      w.methods.declared = methods := by
  obtain ⟨c, hc, h⟩ := Option.bind_eq_some_iff.1 h
  obtain ⟨w, hw, h⟩ := Option.bind_eq_some_iff.1 h
  obtain ⟨hfields, hmethods⟩ := Prod.mk.inj (Option.some.inj h)
  exact ⟨c, w, toOption_eq_some.1 hc, toOption_eq_some.1 hw, hfields, hmethods⟩

/-- A class `A` with a static field `x` and a static method `f`, both of an `int`. -/
def oneOfEach : Bytes :=
  [202, 254, 186, 190, 0, 0, 0, 52, 0, 8, 1, 0, 1, 65, 7, 0, 1, 1, 0, 1, 102, 1, 0, 4, 40, 73, 41,
    86, 1, 0, 4, 67, 111, 100, 101, 1, 0, 1, 120, 1, 0, 1, 73, 0, 0, 0, 2, 0, 0, 0, 0, 0, 1, 0, 8,
    0, 6, 0, 7, 0, 0, 0, 1, 0, 8, 0, 3, 0, 4, 0, 1, 0, 5, 0, 0, 0, 13, 0, 0, 0, 1, 0, 0, 0, 1, 177,
    0, 0, 0, 0, 0, 0]

theorem stores_under_seen_key_oneOfEach : ∃ c w, ClassFile.read oneOfEach = .ok c ∧
    observant.rewrite c = .ok w ∧
    MethodStoresUnder observant c w ⟨⟨"A", "f(I)V"⟩, "(I)V"⟩ ⟨"A", "f(I)V"⟩ ∧
    FieldStoresUnder c w ⟨⟨"A", "x:I"⟩, "I"⟩ ⟨"A", "x:I"⟩ := by
  obtain ⟨c, w, hread, hw, hfields, hdeclared⟩ :=
    exists_of_declaredOf oneOfEach [⟨⟨"A", "x:I"⟩, "I"⟩] [⟨⟨"A", "f(I)V"⟩, "(I)V"⟩]
      (by decide +kernel)
  refine ⟨c, w, hread, hw, ?_, ?_⟩
  · obtain ⟨hmethods, -⟩ := stores_under_seen_key hread hw
    rw [hmethods _ (by simp [hdeclared])]
    decide
  · obtain ⟨-, hstores, -⟩ := stores_under_seen_key hread hw
    rw [hstores _ (by simp [hfields])]
    decide

/-! ### A name with a zero character -/

/-- A class `A` with a static method of an `int`, whose name is `f` and a zero character. -/
def zeroNamed : Bytes :=
  [202, 254, 186, 190, 0, 0, 0, 52, 0, 6, 1, 0, 1, 65, 7, 0, 1, 1, 0, 3, 102, 192, 128, 1, 0, 4,
    40, 73, 41, 86, 1, 0, 4, 67, 111, 100, 101, 0, 1, 0, 2, 0, 0, 0, 0, 0, 0, 0, 1, 0, 8, 0, 3, 0,
    4, 0, 1, 0, 5, 0, 0, 0, 13, 0, 0, 0, 1, 0, 0, 0, 1, 177, 0, 0, 0, 0, 0, 0]

/-- The class file reader and the reader of strings take the zero character for different texts, so
no observation of the method is stored under the key that has been declared. -/
theorem not_stores_under_declared_key :
    ¬∀ (bytes : Bytes) (r : Instrumenter) (c : ClassFile) (w : Rewriting),
      ClassFile.read bytes = .ok c → r.rewrite c = .ok w →
      ∀ d ∈ w.methods.declared, MethodStoresUnder r c w d d.key := by
  intro h
  obtain ⟨c, w, hread, hw, -, hdeclared⟩ :=
    exists_of_declaredOf zeroNamed [] [⟨⟨"A", "f\x00(I)V"⟩, "(I)V"⟩] (by decide +kernel)
  obtain ⟨ts, hts⟩ := Treats.of_read hread hw
  have hmem : (⟨⟨"A", "f\x00(I)V"⟩, "(I)V"⟩ : Declaration) ∈ w.methods.declared := by
    simp [hdeclared]
  have hseen := (hts.methodStoresUnder_iff hmem).1 (h zeroNamed observant c w hread hw _ hmem)
  revert hseen
  decide

end Instrumenter

end ValueCoverage
