import ValueCoverage.Proofs.Capture.Outcome

/-!
# What is declared of a class

Every declaration is that of a field or of an instrumented method, under a key made of the names in
the class file. A key is one text made of a name and a descriptor, so two members could have one key
if their names had the marks in them that tell where a descriptor begins; if they have not, a key
tells the member.
-/

namespace ValueCoverage

/-- A member that is declared, under the names that its class file gives to it. -/
inductive DeclaredMember where
  | field (owner name descriptor : String)
  | method (owner name descriptor : String)
deriving DecidableEq

namespace MemberKey

variable {owner name descriptor owner' name' descriptor' : String} {rest rest' : List Char}

/-- The descriptor of a field begins behind the first colon. -/
theorem field_inj (h : ':' ∉ name.toList) (h' : ':' ∉ name'.toList)
    (hkey : field owner name descriptor = field owner' name' descriptor') :
    owner = owner' ∧ name = name' ∧ descriptor = descriptor' := by
  obtain ⟨howner, hmember⟩ := MemberKey.mk.inj hkey
  have hlists : name.toList ++ ':' :: descriptor.toList =
      name'.toList ++ ':' :: descriptor'.toList := by
    simpa using congrArg String.toList hmember
  have hcut := congrArg (Text.splitFirst ':') hlists
  rw [Text.splitFirst_append h, Text.splitFirst_append h'] at hcut
  obtain ⟨hnames, hdescriptors⟩ := Prod.mk.inj (Option.some.inj hcut)
  exact ⟨howner, String.toList_inj.1 hnames, String.toList_inj.1 hdescriptors⟩

/-- The descriptor of a method begins with the first parenthesis. -/
theorem method_inj (h : '(' ∉ name.toList) (h' : '(' ∉ name'.toList)
    (hkey : method owner name (String.ofList ('(' :: rest)) =
      method owner' name' (String.ofList ('(' :: rest'))) :
    owner = owner' ∧ name = name' ∧ rest = rest' := by
  obtain ⟨howner, hmember⟩ := MemberKey.mk.inj hkey
  have hlists := congrArg String.toList hmember
  simp only [String.toList_append, String.toList_ofList] at hlists
  have hcut := congrArg (Text.splitFirst '(') hlists
  rw [Text.splitFirst_append h, Text.splitFirst_append h'] at hcut
  obtain ⟨hnames, hrest⟩ := Prod.mk.inj (Option.some.inj hcut)
  exact ⟨howner, String.toList_inj.1 hnames, hrest⟩

theorem field_ne_method (hname : '(' ∉ name.toList) (hdescriptor : '(' ∉ descriptor.toList) :
    field owner name descriptor ≠ method owner' name' (String.ofList ('(' :: rest)) := by
  intro hkey
  have hmem : '(' ∈ (field owner name descriptor).member.toList := by
    rw [hkey]
    simp [method]
  simp [field, hname, hdescriptor] at hmem

end MemberKey

namespace DeclaredMember

def declaration : DeclaredMember → Declaration
  | field owner name descriptor => ⟨.field owner name descriptor, descriptor⟩
  | method owner name descriptor => ⟨.method owner name descriptor, descriptor⟩

/-- The names hold none of the marks that tell name and descriptor apart in a key. -/
def Unmarked : DeclaredMember → Prop
  | field _ name descriptor => ':' ∉ name.toList ∧ '(' ∉ name.toList ∧ '(' ∉ descriptor.toList
  | method _ name _ => '(' ∉ name.toList

/-- The member is declared, and the class has it. -/
def DeclaredIn (c : ClassFile) (w : Instrumenter.Rewriting) : DeclaredMember → Prop
  | field owner name descriptor =>
    owner = w.owner ∧ (field owner name descriptor).declaration ∈ w.fields ∧
      ∃ m ∈ c.fields, c.pool.getUtf8 m.name = .ok name ∧
        c.pool.getUtf8 m.descriptor = .ok descriptor
  | method owner name descriptor =>
    owner = w.owner ∧ (method owner name descriptor).declaration ∈ w.methods.declared ∧
      ∃ m ∈ c.methods, c.pool.getUtf8 m.name = .ok name ∧
        c.pool.getUtf8 m.descriptor = .ok descriptor

/-- A method has a descriptor that begins as those of methods do. -/
def Described : DeclaredMember → Prop
  | field _ _ _ => True
  | method _ _ descriptor => ∃ rest, descriptor = String.ofList ('(' :: rest)

variable {a b : DeclaredMember}

/-- A key tells the member. -/
theorem eq_of_key_eq (ha : a.Unmarked) (hb : b.Unmarked) (ha' : a.Described) (hb' : b.Described)
    (hkey : a.declaration.key = b.declaration.key) : a = b := by
  cases a with
  | field owner name descriptor =>
    cases b with
    | field owner' name' descriptor' =>
      obtain ⟨rfl, rfl, rfl⟩ := MemberKey.field_inj ha.1 hb.1 hkey
      rfl
    | method owner' name' descriptor' =>
      obtain ⟨rest, rfl⟩ := hb'
      exact absurd hkey (MemberKey.field_ne_method ha.2.1 ha.2.2)
  | method owner name descriptor =>
    obtain ⟨rest, rfl⟩ := ha'
    cases b with
    | field owner' name' descriptor' =>
      exact absurd hkey.symm (MemberKey.field_ne_method hb.2.1 hb.2.2)
    | method owner' name' descriptor' =>
      obtain ⟨rest', rfl⟩ := hb'
      obtain ⟨rfl, rfl, rfl⟩ := MemberKey.method_inj ha hb hkey
      rfl

end DeclaredMember

theorem Descriptor.eq_of_readMethod {s : String} {type : MethodType}
    (h : readMethod s = .ok type) : ∃ rest, s = String.ofList ('(' :: rest) := by
  have hchars := mapError_eq_ok.1 h
  unfold readMethodChars at hchars
  split at hchars
  · next rest hrest => exact ⟨rest, by rw [← hrest, String.ofList_toList]⟩
  · cases hchars

namespace Instrumenter

variable {r : Instrumenter} {c : ClassFile} {w : Rewriting} {ts : List Treatment} {d : Declaration}

theorem memberOf_eq_ok {owner : String} {m : ClassMember} {member : Member}
    (h : memberOf c owner m = .ok member) :
    c.pool.getUtf8 m.name = .ok member.name ∧ c.pool.getUtf8 m.descriptor = .ok member.descriptor ∧
      member.owner = owner := by
  obtain ⟨name, hname, h⟩ := bind_eq_ok.1 h
  obtain ⟨descriptor, hdescriptor, h⟩ := bind_eq_ok.1 h
  cases h
  exact ⟨hname, hdescriptor, rfl⟩

/-- A declared field is a field of the class. -/
theorem Treats.exists_of_mem_fields (h : Treats r c w ts) (hd : d ∈ w.fields) :
    ∃ (i : Nat) (m : ClassMember) (field : Member), c.fields[i]? = some m ∧
      memberOf c w.owner m = .ok field ∧
      d = fieldDeclaration w.owner field := by
  have hdeclared := declareFields_declared h.fields
  cases hon : r.fields with
  | false =>
    rw [hdeclared.off hon] at hd
    cases hd
  | true =>
    obtain ⟨members, hmembers, hfields⟩ := hdeclared.on hon
    rw [hfields] at hd
    obtain ⟨field, hfield, rfl⟩ := List.mem_map.1 hd
    obtain ⟨i, hi⟩ := List.mem_iff_getElem?.1 (List.mem_of_mem_filter hfield)
    obtain ⟨m, hm, hmember⟩ := getElem?_of_mapM hmembers hi
    exact ⟨i, m, field, hm, hmember, rfl⟩

/-- A declared method is one of the class whose code has a prefix. -/
theorem Treats.exists_of_mem_declared (h : Treats r c w ts) (hd : d ∈ w.methods.declared) :
    ∃ i ∈ w.methods.instrumented, ∃ (method : Member) (type : MethodType)
      (before after : ClassMember) (code : Code) (refs : CaptureRefs),
      d = ⟨.method w.owner method.name method.descriptor, method.descriptor⟩ ∧
      c.methods[i]? = some before ∧ w.methods.file.methods[i]? = some after ∧
      memberOf c w.owner before = .ok method ∧
      Descriptor.readMethod method.descriptor = .ok type ∧
      Prefixed r.target (plan w.owner i before method type) w.methods.file.pool before after code
        refs := by
  rw [h.declared, List.mem_filterMap] at hd
  obtain ⟨t, ht, hdeclaration⟩ := hd
  obtain ⟨k, hk⟩ := List.mem_iff_getElem?.1 ht
  have hmeets := h.meets k t hk
  have hbefore : c.methods[k]? = some t.before := by
    rw [← h.before, List.getElem?_map, hk]
    rfl
  have hafter : w.methods.file.methods[k]? = some t.after := by
    rw [h.file]
    simp [hk]
  cases hmeets with
  | passed _ => cases hdeclaration
  | malformed _ => cases hdeclaration
  | refused _ _ => cases hdeclaration
  | @instrumented before after p code refs hdecides hprefixed =>
    cases hdecides with
    | @instrument method type hasked htype hparams =>
      refine ⟨k, ?_, method, type, before, after, code, refs, ?_, hbefore, hafter, hasked.member,
        htype, hprefixed⟩
      · rw [h.instrumented]
        exact List.mem_filterMap.2 ⟨_, ht, rfl⟩
      · exact (Option.some.inj hdeclaration).symm

/-- What is declared is a member of the class. -/
theorem Treats.exists_declaredIn (h : Treats r c w ts) (hd : d ∈ w.fields ++ w.methods.declared) :
    ∃ a : DeclaredMember, a.DeclaredIn c w ∧ a.declaration = d := by
  rcases List.mem_append.1 hd with hd | hd
  · obtain ⟨i, m, field, hm, hfield, rfl⟩ := h.exists_of_mem_fields hd
    obtain ⟨hname, hdescriptor, -⟩ := memberOf_eq_ok hfield
    exact ⟨.field w.owner field.name field.descriptor,
      ⟨rfl, hd, m, List.mem_of_getElem? hm, hname, hdescriptor⟩, rfl⟩
  · obtain ⟨i, -, method, type, before, -, -, -, rfl, hbefore, -, hmethod, -, -⟩ :=
      h.exists_of_mem_declared hd
    obtain ⟨hname, hdescriptor, -⟩ := memberOf_eq_ok hmethod
    exact ⟨.method w.owner method.name method.descriptor,
      ⟨rfl, hd, before, List.mem_of_getElem? hbefore, hname, hdescriptor⟩, rfl⟩

theorem Treats.described (h : Treats r c w ts) {a : DeclaredMember} (ha : a.DeclaredIn c w) :
    a.Described := by
  cases a with
  | field owner name descriptor => trivial
  | method owner name descriptor =>
    obtain ⟨-, hd, -⟩ := ha
    obtain ⟨-, -, method, type, -, -, -, -, heq, -, -, -, htype, -⟩ := h.exists_of_mem_declared hd
    obtain ⟨rest, hrest⟩ := Descriptor.eq_of_readMethod htype
    exact ⟨rest, (congrArg Declaration.descriptor heq).trans hrest⟩

end Instrumenter

end ValueCoverage
