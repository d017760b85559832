import Attest.Proofs.Integrity.Acceptance
import Attest.Proofs.Integrity.Signing
import Attest.Proofs.Json.Rearrangement

/-!
The text of a document in transit. Its members may be put into any order, at every depth, white space may be put in or
taken out, and strings may be escaped otherwise. It is read as the same document all the same, so that its canonical
text, what is signed and what is found when its proofs are checked stay what they were.
-/

namespace Attest

open Json (IsTextOf Object Value)

/-- A proof with a given time of creation depends on nothing of a text but its document. -/
theorem Keyring.addProof_of_parseDocument_eq (r : Keyring) {text text' : Bytes}
    (h : parseDocument text = parseDocument text') {o : ProofOptions} (hcreated : o.created.isSome = true)
    (now now' : Timestamp) : r.addProof now text o = r.addProof now' text' o := by
  obtain ⟨created, hcreated⟩ := Option.isSome_iff_exists.mp hcreated
  simp only [addProof, h, hcreated, Option.getD_some]

theorem verifyProof_of_parseDocument_eq (resolve : Resolver) (now : Timestamp) {text text' : Bytes}
    (h : parseDocument text = parseDocument text') (o : ProofOptions) :
    verifyProof resolve now text o = verifyProof resolve now text' o := by
  simp only [verifyProof, h]

/-- Two texts of one document, however they write it, are read as the document and have its canonical text; with a given
time of creation they are signed alike, and what is found when their proofs are checked is the same. -/
theorem layout_is_irrelevant {document : Object} (hordered : (Value.object document).Ordered)
    (hdepth : (Value.object document).depth ≤ Json.nestingLimit) {text text' : Bytes}
    (htext : IsTextOf (.object document) text) (htext' : IsTextOf (.object document) text') :
    parseDocument text = .ok document ∧ parseDocument text' = .ok document ∧
      (Json.parse text).map Value.canonicalBytes = .ok (Value.object document).canonicalBytes ∧
      (Json.parse text').map Value.canonicalBytes = .ok (Value.object document).canonicalBytes ∧
      (∀ (r : Keyring) (now now' : Timestamp) (o : ProofOptions), o.created.isSome = true →
        r.addProof now text o = r.addProof now' text' o) ∧
      ∀ (resolve : Resolver) (now : Timestamp) (o : ProofOptions),
        verifyProof resolve now text o = verifyProof resolve now text' o := by
  have hparse := Json.parse_of_isTextOf hordered hdepth htext
  have hparse' := Json.parse_of_isTextOf hordered hdepth htext'
  have hdocument := parseDocument_eq_ok.mpr hparse
  have hdocument' := parseDocument_eq_ok.mpr hparse'
  have hsame : parseDocument text = parseDocument text' := by rw [hdocument, hdocument']
  refine ⟨hdocument, hdocument', ?_, ?_,
    fun r now now' o hcreated => r.addProof_of_parseDocument_eq hsame hcreated now now',
    fun resolve now o => verifyProof_of_parseDocument_eq resolve now hsame o⟩
  · rw [hparse]
    rfl
  · rw [hparse']
    rfl

namespace Sample

/-- A document with a list and a text. -/
def parcel : Object :=
  [("a", .array [.number (.integer 7 (by decide)), .null]), ("b/", .string "é😀")]

/-- The same members the other way round. -/
def turned : Value :=
  .object [("b/", .string "é😀"), ("a", .array [.number (.integer 7 (by decide)), .null])]

/-- A text of the document with white space, short escapes and escapes by code units. -/
def spread : Bytes :=
  Bytes.ofString " \x7b\n\"b\\/\" : \"\\u00e9\\ud83d\\ude00\",\"\\u0061\":[7 ,\tnull]\x7d\r\n"

open Json Ascii in
theorem isTextOf_spread : IsTextOf (.object parcel) spread := by
  have hblank : Blank [] := nofun
  have hspace (b : UInt8) (hb : b = byte ' ' ∨ b = byte '\n' ∨ b = byte '\t' ∨ b = byte '\r') : Blank [b] :=
    List.forall_mem_singleton.mpr hb
  have hspaced := hspace (byte ' ') (by decide)
  have hunit (a b c d : Nat) (ha : a < 16) (hb : b < 16) (hc : c < 16) (hd : d < 16) :
      HexUnit (((a * 16 + b) * 16 + c) * 16 + d) ([a, b, c, d].map fun n => byte (Nat.digitChar n)) :=
    .digits ⟨ha, .inl rfl⟩ ⟨hb, .inl rfl⟩ ⟨hc, .inl rfl⟩ ⟨hd, .inl rfl⟩
  have hstring {s : String} {cs : List Char} {content : Bytes} (h : WritesChars cs content) (hs : s.toList = cs) :
      WritesString s (byte '"' :: (content ++ [byte '"'])) := .quoted (hs ▸ h)
  -- the names and the text
  have hletter : WritesChar 'a' _ := .units (.cons (hunit 0 0 6 1 (by decide) (by decide) (by decide) (by decide)) .nil)
  have hplain : WritesChar 'b' _ := .itself (by decide) (by decide) (by decide)
  have hslash : WritesChar '/' _ := .short (show ('/', '/') ∈ shortEscapes by decide)
  have haccent : WritesChar 'é' _ :=
    .units (.cons (hunit 0 0 14 9 (by decide) (by decide) (by decide) (by decide)) .nil)
  have hface : WritesChar '😀' _ :=
    .units (.cons (hunit 13 8 3 13 (by decide) (by decide) (by decide) (by decide))
      (.cons (hunit 13 14 0 0 (by decide) (by decide) (by decide) (by decide)) .nil))
  have hname := hstring (s := "b/") (.cons hplain (.cons hslash .nil)) rfl
  have hname' := hstring (s := "a") (.cons hletter .nil) rfl
  have htext := hstring (s := "é😀") (.cons haccent (.cons hface .nil)) rfl
  -- the list
  have hseven : Writes (.number (.integer 7 (by decide))) _ :=
    .number (l := ⟨false, ⟨['7'], [], none⟩, false, false⟩)
      ⟨List.forall_mem_singleton.mpr (by decide), by decide, by decide, List.forall_mem_nil _, nofun⟩ (by decide)
  have hlist := Writes.array (.more hblank hseven hspaced (.last (hspace (byte '\t') (by decide)) .null hblank))
  -- the document
  have hmembers := Writes.object (.more (hspace (byte '\n') (by decide))
    (.pair hname hspaced hspaced (.string htext)) hblank (.last hblank (.pair hname' hblank hblank hlist) hblank))
  have hend : Blank [byte '\r', byte '\n'] :=
    List.forall_mem_cons.mpr ⟨by decide, hspace (byte '\n') (by decide)⟩
  refine ⟨turned, ?_, (congrArg (WritesText turned) ?_).mpr (.around hspaced hmembers hend)⟩
  · exact .object (List.forall₂_same.mpr fun member _ => .values (.refl member.2)) (List.Perm.swap _ _ _)
  · decide +kernel

end Sample

open Sample in
/-- A document with its members in order and without white space, and the same turned round, spread out and escaped. -/
theorem layout_is_irrelevant_spread :
    spread ≠ (Value.object parcel).bytes ∧
    parseDocument (Value.object parcel).bytes = .ok parcel ∧ parseDocument spread = .ok parcel ∧
      (Json.parse (Value.object parcel).bytes).map Value.canonicalBytes =
        .ok (Value.object parcel).canonicalBytes ∧
      (Json.parse spread).map Value.canonicalBytes = .ok (Value.object parcel).canonicalBytes ∧
      (∀ (r : Keyring) (now now' : Timestamp) (o : ProofOptions), o.created.isSome = true →
        r.addProof now (Value.object parcel).bytes o = r.addProof now' spread o) ∧
      ∀ (resolve : Resolver) (now : Timestamp) (o : ProofOptions),
        verifyProof resolve now (Value.object parcel).bytes o = verifyProof resolve now spread o := by
  have hordered : (Value.object parcel).Ordered := by
    refine Value.ordered_object.mpr ⟨by unfold Dict.Ascending; decide, ?_⟩
    simp [parcel, Value.Ordered, Value.OrderedItems]
  exact ⟨by decide +kernel, layout_is_irrelevant hordered (by decide) (Json.isTextOf_bytes _) isTextOf_spread⟩

end Attest
