import Mathlib.Data.List.Forall2
import ValueCoverage.Observation.Registry
import ValueCoverage.Proofs.Options.Pieces
import ValueCoverage.Proofs.Text.Cutting

/-!
# Codec specifications are read as they were written

A specification is written as a name and arguments in parentheses, with blanks around each of them.
It is read as the same name and the same arguments, and the factory that was registered last for the
name is called with them.
-/

namespace ValueCoverage

namespace CodecSpec

open Text (Bare Padded isBlankLine trimChars joinWith)
open Options (Balanced IsPiece)

/-- A name that can stand in a specification. -/
structure IsName (name : String) : Prop where
  ne_empty : name ≠ ""
  bare : Bare name.toList
  opening : '(' ∉ name.toList
  closing : ')' ∉ name.toList
  comma : ',' ∉ name.toList

theorem IsName.toList_ne_nil {name : String} (h : IsName name) : name.toList ≠ [] :=
  fun hnil => h.ne_empty (String.toList_eq_nil_iff.1 hnil)

/-- Arguments that can stand in a specification. One empty argument looks like none. -/
structure AreArgs (args : List String) : Prop where
  ne_nil : args ≠ []
  ne_empty : args ≠ [""]
  comma : ∀ arg ∈ args, ',' ∉ arg.toList
  bare : ∀ arg ∈ args, Bare arg.toList
  balanced : ∀ arg ∈ args, Balanced arg.toList

/-- The texts are the arguments with blanks around them. -/
abbrev PaddedArgs (args : List String) (texts : List (List Char)) : Prop :=
  List.Forall₂ (fun arg text => Padded arg.toList text) args texts

/-- The text is a specification of the name with the arguments. Blanks may stand behind the name and
around each argument. -/
inductive Writes (name : String) (args : List String) : List Char → Prop where
  | mk {between : List Char} {texts : List (List Char)} (hbetween : isBlankLine between)
    (hargs : PaddedArgs args texts) :
    Writes name args (name.toList ++ between ++ '(' :: (joinWith [','] texts ++ [')']))

section Args

variable {name : String} {args : List String} {text : List Char} {texts : List (List Char)}

theorem comma_not_mem {arg : String} (h : Padded arg.toList text) (harg : ',' ∉ arg.toList) :
    ',' ∉ text := by
  cases h with
  | mk hfront hback =>
    have hcomma : Text.isBlank ',' = false := by decide
    simp [Text.not_mem_of_isBlankLine hfront hcomma, Text.not_mem_of_isBlankLine hback hcomma, harg]

theorem comma_not_mem_texts (h : PaddedArgs args texts)
    (hcomma : ∀ arg ∈ args, ',' ∉ arg.toList) : ∀ text ∈ texts, ',' ∉ text := by
  induction h with
  | nil => simp
  | cons hpadded _ ih =>
    rw [List.forall_mem_cons] at hcomma ⊢
    exact ⟨comma_not_mem hpadded hcomma.1, ih hcomma.2⟩

theorem map_trimChars (h : PaddedArgs args texts) (hbare : ∀ arg ∈ args, Bare arg.toList) :
    (texts.map fun text => String.ofList (trimChars text)) = args := by
  induction h with
  | nil => rfl
  | @cons arg text args texts hpadded _ ih =>
    rw [List.forall_mem_cons] at hbare
    rw [List.map_cons, hpadded.trimChars_eq hbare.1, String.ofList_toList, ih hbare.2]

/-- More than one text brings a comma, and a single one something that is no blank. -/
theorem trimChars_joinWith_ne_nil (h : PaddedArgs args texts) (hargs : AreArgs args) :
    trimChars (joinWith [','] texts) ≠ [] := by
  intro hnil
  cases h with
  | nil => exact hargs.ne_nil rfl
  | @cons arg text args texts hpadded hrest =>
    cases hrest with
    | nil =>
      have harg : trimChars text = arg.toList := hpadded.trimChars_eq (hargs.bare arg (by simp))
      refine hargs.ne_empty ?_
      rw [← String.toList_eq_nil_iff.1 (harg.symm.trans hnil)]
    | @cons second text' _ texts' _ _ =>
      have hblank := Text.isBlankLine_of_trimChars_eq_nil hnil
      exact Text.not_mem_of_isBlankLine hblank (by decide : Text.isBlank ',' = false)
        (by simp [joinWith])

theorem readArgs_joinWith (h : PaddedArgs args texts) (hargs : AreArgs args) :
    readArgs (joinWith [','] texts) = args := by
  have hne : texts ≠ [] := by
    rintro rfl
    cases h
    exact hargs.ne_nil rfl
  rw [readArgs, if_neg (by simpa using trimChars_joinWith_ne_nil h hargs),
    Text.splitOn_joinWith hne (comma_not_mem_texts h hargs.comma), map_trimChars h hargs.bare]

end Args

namespace Writes

variable {name : String} {args : List String} {text : List Char}

theorem bare (h : Writes name args text) (hname : IsName name) : Bare text := by
  cases h with
  | @mk between texts hbetween hargs =>
    have hclose : Bare [')'] := by decide
    have hbare := hname.bare.append hclose hname.toList_ne_nil (by simp)
      (between ++ '(' :: joinWith [','] texts)
    simpa using hbare

/-- **A specification is read as it was written.** -/
theorem read (h : Writes name args text) (hname : IsName name) (hargs : AreArgs args) :
    CodecSpec.read (String.ofList text) = .ok ⟨name, args⟩ := by
  have hbare := h.bare hname
  cases h with
  | @mk between texts hbetween hpadded =>
    have hopen : '(' ∉ name.toList ++ between := by
      rw [List.mem_append, not_or]
      exact ⟨hname.opening, Text.not_mem_of_isBlankLine hbetween (by decide)⟩
    have htrim : trimChars (name.toList ++ between) = name.toList :=
      (Text.padded_append _ hbetween).trimChars_eq hname.bare
    simp only [CodecSpec.read, String.toList_ofList, hbare.trimChars_eq,
      Text.splitFirst_append hopen, Text.dropSuffix?_append, htrim]
    rw [if_neg (by simpa using hname.toList_ne_nil), String.ofList_toList,
      readArgs_joinWith hpadded hargs]

end Writes

end CodecSpec

namespace CodecRegistry

/-- Registers one factory after the other. -/
def registerAll (r : CodecRegistry) (entries : List (String × CodecFactory)) : CodecRegistry :=
  entries.foldl (fun r entry => r.register entry.1 entry.2) r

variable {r : CodecRegistry} {name : String} {factory : CodecFactory}

theorem get?_registerAll {entries : List (String × CodecFactory)}
    (hlater : ∀ entry ∈ entries, entry.1 ≠ name) :
    (r.registerAll entries).factories.get? name = r.factories.get? name := by
  induction entries generalizing r with
  | nil => rfl
  | cons entry rest ih =>
    rw [List.forall_mem_cons] at hlater
    exact (ih hlater.2).trans (OrderedMap.get?_alter_of_ne _ (Ne.symm hlater.1) _)

/-- What is read of a specification goes to the factory of its name. -/
theorem resolve_eq {spec : String} {args : List String}
    (hread : CodecSpec.read spec = .ok ⟨name, args⟩)
    (hfactory : r.factories.get? name = some factory) :
    r.resolve spec = (factory args).mapError fun reason => .unresolved spec (.rejected reason) := by
  simp only [resolve, hread, bind, Except.bind, hfactory]
  cases factory args <;> rfl

end CodecRegistry

end ValueCoverage
