import ValueCoverage.Proofs.Observation.Registry
import ValueCoverage.Proofs.Options.Settings

/-!
# A codec specification reaches its factory

An option string is cut at commas that no parentheses hold, and a specification at its first
parenthesis and at every comma behind it. What the one keeps together the other takes apart: a
specification among options comes to the registry as it was written, and the factory of its name is
called with its arguments.
-/

namespace ValueCoverage

namespace CodecSpec

open Text (Padded isBlankLine joinWith)
open Options (Balanced IsPiece isPiece_append_plain isPiece_append_of_closes)

variable {name : String} {args : List String} {text : List Char} {texts : List (List Char)}
  {depth : Nat}

theorem isPiece_append_blank {front rest : List Char} (h : isBlankLine front) :
    IsPiece depth (front ++ rest) ↔ IsPiece depth rest :=
  isPiece_append_plain (Text.not_mem_of_isBlankLine h (by decide))
    (Text.not_mem_of_isBlankLine h (by decide)) (Text.not_mem_of_isBlankLine h (by decide))

theorem isPiece_append_padded {arg rest : List Char} (h : Padded arg text) (harg : Balanced arg)
    (hdepth : 0 < depth) : IsPiece depth (text ++ rest) ↔ IsPiece depth rest := by
  cases h with
  | @mk front back hfront hback =>
    have hskip : IsPiece (0 + depth) (arg ++ (back ++ rest)) ↔ IsPiece depth (back ++ rest) :=
      isPiece_append_of_closes harg hdepth
    rw [Nat.zero_add] at hskip
    rw [List.append_assoc, List.append_assoc, isPiece_append_blank hfront, hskip,
      isPiece_append_blank hback]

/-- Inside the parentheses, commas cut nothing. -/
theorem isPiece_append_joinWith (h : PaddedArgs args texts)
    (hargs : ∀ arg ∈ args, Balanced arg.toList) (hdepth : 0 < depth) (rest : List Char) :
    IsPiece depth (joinWith [','] texts ++ rest) ↔ IsPiece depth rest := by
  induction h with
  | nil => rfl
  | @cons arg text args texts hpadded hrest ih =>
    rw [List.forall_mem_cons] at hargs
    cases hrest with
    | nil => exact isPiece_append_padded hpadded hargs.1 hdepth
    | @cons second text' _ texts' _ _ =>
      show IsPiece depth (text ++ [','] ++ joinWith [','] (text' :: texts') ++ rest) ↔ _
      rw [List.append_assoc, List.append_assoc, isPiece_append_padded hpadded hargs.1 hdepth,
        List.singleton_append, Options.isPiece_plain (by decide) (by decide), ih hargs.2]
      exact and_iff_right fun _ => hdepth

/-- A specification is kept together. -/
theorem Writes.isPiece_append (h : Writes name args text) (hname : IsName name)
    (hargs : AreArgs args) (rest : List Char) : IsPiece 0 (text ++ rest) ↔ IsPiece 0 rest := by
  cases h with
  | @mk between texts hbetween hpadded =>
    rw [List.append_assoc, List.append_assoc,
      isPiece_append_plain hname.opening hname.closing hname.comma,
      isPiece_append_blank hbetween, List.cons_append, Options.isPiece_open, List.append_assoc,
      isPiece_append_joinWith hpadded hargs.balanced (by decide), List.singleton_append,
      Options.isPiece_close]
    exact and_iff_right (by decide)

theorem Writes.ne_nil (h : Writes name args text) : text ≠ [] := by
  cases h with
  | mk hbetween hpadded => simp

end CodecSpec

namespace Options

open Text (Bare Padded isBlankLine)

section Entry

variable {key value keyText valueText text s : List Char}

theorem trim_ofList (h : Padded s text) (hs : Bare s) :
    Text.trim (String.ofList text) = String.ofList s := by
  rw [Text.trim, String.toList_ofList, h.trimChars_eq hs]

theorem nonBlank_ofList (h : Padded s text) (hs : Bare s) (hne : s ≠ []) :
    nonBlank (String.ofList text) = some (String.ofList s) := by
  have hempty : (String.ofList s).isEmpty = false := by simpa using hne
  simp only [nonBlank, trim_ofList h hs, hempty, Bool.false_eq_true, if_false]

/-- A key and a value are found between any blanks. -/
theorem entryOf?_padded (hkey : Padded key keyText) (hvalue : Padded value valueText)
    (hkeyBare : Bare key) (hvalueBare : Bare value) (hkeyNe : key ≠ []) (hvalueNe : value ≠ [])
    (hequal : '=' ∉ key) :
    entryOf? (keyText ++ '=' :: valueText) = some (String.ofList key, String.ofList value) := by
  cases hkey with
  | @mk before behind hbefore hbehind =>
  cases hvalue with
  | @mk front back hfront hback =>
    -- the blanks at the ends go first, and those around the equals sign with the two parts
    have hwhole : before ++ key ++ behind ++ '=' :: (front ++ value ++ back) =
        before ++ (key ++ (behind ++ '=' :: front) ++ value) ++ back := by simp
    have hoption := nonBlank_ofList (.mk hbefore hback)
      (hkeyBare.append hvalueBare hkeyNe hvalueNe (behind ++ '=' :: front)) (by simp [hkeyNe])
    have hcut : key ++ (behind ++ '=' :: front) ++ value =
        key ++ behind ++ '=' :: (front ++ value) := by simp
    have hfirst : '=' ∉ key ++ behind := by
      rw [List.mem_append, not_or]
      exact ⟨hequal, Text.not_mem_of_isBlankLine hbehind (by decide)⟩
    have hk : Text.trim (String.ofList (key ++ behind)) = String.ofList key :=
      trim_ofList (Text.padded_append _ hbehind) hkeyBare
    have hv : Text.trim (String.ofList (front ++ value)) = String.ofList value :=
      trim_ofList (Text.append_padded _ hfront) hvalueBare
    rw [hwhole, entryOf?, hoption, Option.bind_some, entry?, String.toList_ofList, hcut,
      Text.splitFirst_append hfirst, Option.map_some, hk, hv]

end Entry

/-- The key of the codec that writes. -/
def serializerKey : List Char := "serializer".toList

theorem set_serializer {spec : List Char} (hspec : Bare spec) (hne : spec ≠ []) (o : Options) :
    o.set "serializer" (String.ofList spec) = .ok { o with serializer := String.ofList spec } := by
  have hnonBlank : nonBlank (String.ofList spec) = some (String.ofList spec) :=
    nonBlank_ofList (.self spec) hspec hne
  simp only [set, hnonBlank]

section Serializer

variable {name : String} {args : List String} {spec keyText text : List Char}

theorem isPiece_option (hname : CodecSpec.IsName name) (hargs : CodecSpec.AreArgs args)
    (hspec : CodecSpec.Writes name args spec) (hkey : Padded serializerKey keyText)
    (htext : Padded spec text) : IsPiece 0 (keyText ++ '=' :: text) := by
  cases hkey with
  | @mk before behind hbefore hbehind =>
  cases htext with
  | @mk front back hfront hback =>
    rw [List.append_assoc, List.append_assoc, CodecSpec.isPiece_append_blank hbefore,
      isPiece_append_plain (by decide) (by decide) (by decide),
      CodecSpec.isPiece_append_blank hbehind,
      isPiece_plain (by decide) (by decide), List.append_assoc,
      CodecSpec.isPiece_append_blank hfront, hspec.isPiece_append hname hargs,
      ← List.append_nil back, CodecSpec.isPiece_append_blank hback, isPiece_nil]
    exact ⟨by decide, rfl⟩

theorem entryOf?_option (hname : CodecSpec.IsName name) (hspec : CodecSpec.Writes name args spec)
    (hkey : Padded serializerKey keyText) (htext : Padded spec text) :
    entryOf? (keyText ++ '=' :: text) = some ("serializer", String.ofList spec) :=
  entryOf?_padded hkey htext (by decide) (hspec.bare hname) (by decide) hspec.ne_nil (by decide)

/-- **A codec specification reaches its factory.** The name and the arguments of a codec, written
with blanks around them, around the whole and around the key, are one option. It is accepted alone,
and in front of all options that are accepted and do not choose the codec again; nothing else
changes. Of the text that is then kept, any registry calls the factory that was registered last for
the name, with just these arguments. -/
theorem specification_reaches_factory (hname : CodecSpec.IsName name)
    (hargs : CodecSpec.AreArgs args) (hspec : CodecSpec.Writes name args spec)
    (hkey : Padded serializerKey keyText) (htext : Padded spec text) (o : Options) :
    o.apply (String.ofList (keyText ++ '=' :: text)) =
      .ok { o with serializer := String.ofList spec } ∧
    (∀ others r, o.apply others = .ok r → Lacks "serializer" others →
      o.apply (String.ofList (keyText ++ '=' :: text) ++ "," ++ others) =
        .ok { r with serializer := String.ofList spec }) ∧
    ∀ (registry : CodecRegistry) (factory : CodecFactory) (later : List (String × CodecFactory)),
      (∀ entry ∈ later, entry.1 ≠ name) →
      ((registry.register name factory).registerAll later).resolve (String.ofList spec) =
        (factory args).mapError fun reason =>
          .unresolved (String.ofList spec) (.rejected reason) := by
  have hpiece := isPiece_option hname hargs hspec hkey htext
  have hentry := entryOf?_option hname hspec hkey htext
  have hset (o : Options) := set_serializer (hspec.bare hname) hspec.ne_nil o
  refine ⟨apply_piece hpiece hentry (by decide) (hset o), fun others r hothers hlacks =>
    apply_piece_append hpiece hentry (by decide) hothers hlacks (hset r),
    fun registry factory later hlater => ?_⟩
  refine CodecRegistry.resolve_eq (hspec.read hname hargs) ?_
  rw [CodecRegistry.get?_registerAll hlater]
  exact OrderedMap.get?_alter_self _ _ _

end Serializer

/-- Arguments with parentheses and an equals sign, and an empty one among them. -/
def nestedArgs : List String := ["f(x=(1))", "", "a b"]

/-- A specification with blanks in all places where they may stand. -/
def nestedSpec : List Char := "two words ( f(x=(1)) , ,a b\t)".toList

/-- Says which arguments it is called with. -/
def echoFactory (word : String) : CodecFactory := fun args =>
  .error (word ++ "|".intercalate args)

theorem specification_reaches_factory_nested :
    CodecSpec.IsName "two words" ∧ CodecSpec.AreArgs nestedArgs ∧
    CodecSpec.Writes "two words" nestedArgs nestedSpec ∧
    ofString " serializer =  two words ( f(x=(1)) , ,a b\t)\n" =
      .ok { standard with serializer := String.ofList nestedSpec } ∧
    ofString (" serializer =  two words ( f(x=(1)) , ,a b\t)\n" ++ "," ++
        "mode=template,,deserializer=typed") =
      .ok { standard with
        mode := .template, deserializer := "typed", serializer := String.ofList nestedSpec } ∧
    (((CodecRegistry.standard.register "two words" (echoFactory "old ")).register "two words"
        (echoFactory "new ")).registerAll [("typed", echoFactory "other ")]).resolve
          (String.ofList nestedSpec) =
      .error (.unresolved (String.ofList nestedSpec) (.rejected "new f(x=(1))||a b")) := by
  have hname : CodecSpec.IsName "two words" :=
    ⟨by decide, by decide, by decide, by decide, by decide⟩
  have hall {p : String → Prop} (hnested : p "f(x=(1))") (hempty : p "") (hplain : p "a b") :
      ∀ arg ∈ nestedArgs, p arg := by
    simpa [nestedArgs] using ⟨hnested, hempty, hplain⟩
  have hbalanced {text : List Char} (h : (splitOutside text 0 [] []).isSome) : Balanced text :=
    isSome_splitOutside.1 h
  have hargs : CodecSpec.AreArgs nestedArgs :=
    ⟨by decide, by decide, hall (by decide) (by decide) (by decide),
      hall (by decide) (by decide) (by decide),
      hall (hbalanced (by decide)) (hbalanced (by decide)) (hbalanced (by decide))⟩
  have hspec : CodecSpec.Writes "two words" nestedArgs nestedSpec := by
    have hpadded : CodecSpec.PaddedArgs nestedArgs
        [[' '] ++ "f(x=(1))".toList ++ [' '], [' '] ++ "".toList ++ [],
          [] ++ "a b".toList ++ ['\t']] :=
      .cons (.mk rfl rfl) (.cons (.mk rfl rfl) (.cons (.mk rfl rfl) .nil))
    exact CodecSpec.Writes.mk (rfl : isBlankLine [' ']) hpadded
  have hkey : Padded serializerKey " serializer ".toList := by
    have htext : " serializer ".toList = [' '] ++ serializerKey ++ [' '] := by decide
    exact htext ▸ .mk rfl rfl
  have htext : Padded nestedSpec "  two words ( f(x=(1)) , ,a b\t)\n".toList := by
    have htext :
        "  two words ( f(x=(1)) , ,a b\t)\n".toList = [' ', ' '] ++ nestedSpec ++ ['\n'] := by
      decide
    exact htext ▸ .mk rfl rfl
  have hothers : standard.apply "mode=template,,deserializer=typed" =
      .ok { standard with mode := .template, deserializer := "typed" } := by
    have happly : standard.applyAll "mode=template,,deserializer=typed" =
        ({ standard with mode := .template, deserializer := "typed" }, none) := by decide +kernel
    rw [apply, happly]
  have hlacks : Lacks "serializer" "mode=template,,deserializer=typed" := by
    intro options hsplit
    have hoptions : split "mode=template,,deserializer=typed" =
        .ok ["mode=template", "deserializer=typed"] := by decide +kernel
    have hmode : entry? "mode=template" = some ("mode", "template") := by decide +kernel
    have hreader : entry? "deserializer=typed" = some ("deserializer", "typed") := by decide +kernel
    rw [hoptions] at hsplit
    cases hsplit
    rw [List.forall_mem_cons, List.forall_mem_singleton, hmode, hreader]
    constructor <;> rintro _ ⟨⟩ <;> decide
  obtain ⟨halone, hfront, hresolve⟩ :=
    specification_reaches_factory hname hargs hspec hkey htext standard
  refine ⟨hname, hargs, hspec, halone, hfront _ _ hothers hlacks, ?_⟩
  exact hresolve _ (echoFactory "new ") [("typed", echoFactory "other ")] (by simp)

end Options

end ValueCoverage
