import ServiceTemplate.ProfileMarkers
import ServiceTemplate.ExceptChain
import Mathlib.Data.List.Forall2

/-! Which files the markers admit, what they leave of each file, and how far the recogniser over
bytes and the one over lines agree. -/
namespace MarkerSelection

open ByteFraming
open Utf8Text
open TextLines
open ProfileMarkers
open ExceptChain (bind_ok)

section Encoding

theorem encode_ne_nil (c : Char) : String.utf8EncodeChar c ≠ [] := by
  intro h
  have hlen := congrArg List.length h
  rw [String.length_utf8EncodeChar] at hlen
  exact absurd hlen (Nat.pos_iff_ne_zero.mp c.utf8Size_pos)

theorem utf8_cons (c : Char) (text : Text) :
    utf8 (c :: text) = String.utf8EncodeChar c ++ utf8 text := List.flatMap_cons

/-- The first byte of a character is an ASCII byte exactly where the character is that one. -/
theorem head_byte {c d : Char} (hc : c.toNat < 128) :
    (String.utf8EncodeChar d).head? = some (UInt8.ofNat c.toNat) ↔ d = c := by
  constructor
  · intro h
    have hnat : (UInt8.ofNat c.toNat).toNat = c.toNat :=
      UInt8.toNat_ofNat_of_lt' (Nat.lt_trans hc (by decide))
    have heq := encode_char_ascii_byte (List.mem_of_head? h) (by omega)
    rw [hnat] at heq
    exact Char.toNat_inj.mp heq
  · rintro rfl
    rw [encode_ascii hc]
    rfl

theorem head_utf8 {c : Char} {t : Text} (hc : c.toNat < 128) :
    (utf8 t).head? = some (UInt8.ofNat c.toNat) ↔ t.head? = some c := by
  cases t with
  | nil => simp [utf8]
  | cons d rest =>
    rw [utf8_cons, List.head?_append_of_ne_nil _ (encode_ne_nil d), head_byte hc]
    simp

theorem utf8_eq_nil {text : Text} : utf8 text = [] ↔ text = [] := by
  cases text with
  | nil => simp [utf8]
  | cons d text => simp [utf8_cons]

theorem blank_char {c : Char} : characters.blank c = true ↔ c = ' ' ∨ c = '\t' := by
  simp [characters]

theorem blank_byte {b : UInt8} : bytes.blank b = true ↔ b = 32 ∨ b = 9 := by
  simp [bytes]

theorem head_blank (text : Text) :
    (utf8 text).head?.any bytes.blank = text.head?.any characters.blank := by
  rw [Bool.eq_iff_iff, Option.any_eq_true, Option.any_eq_true]
  have hspace := head_utf8 (t := text) (c := ' ') (by decide)
  have htab := head_utf8 (t := text) (c := '\t') (by decide)
  constructor
  · rintro ⟨b, hb, hblank⟩
    rcases blank_byte.mp hblank with rfl | rfl
    · exact ⟨' ', hspace.mp hb, by decide⟩
    · exact ⟨'\t', htab.mp hb, by decide⟩
  · rintro ⟨c, hc, hblank⟩
    rcases blank_char.mp hblank with rfl | rfl
    · exact ⟨32, hspace.mpr hc, by decide⟩
    · exact ⟨9, htab.mpr hc, by decide⟩

theorem drop_blanks (text : Text) :
    (utf8 text).dropWhile bytes.blank = utf8 (text.dropWhile characters.blank) := by
  induction text with
  | nil => rfl
  | cons c text ih =>
    have hhead := head_blank (c :: text)
    by_cases hblank : characters.blank c = true
    · have hascii : c.toNat < 128 := by
        rcases blank_char.mp hblank with rfl | rfl <;> decide
      rw [utf8_cons, encode_ascii hascii] at hhead ⊢
      simp only [List.cons_append, List.nil_append, List.head?_cons, Option.any_some] at hhead ⊢
      rw [List.dropWhile_cons_of_pos (hhead.trans hblank), ih, List.dropWhile_cons_of_pos hblank]
    · rw [List.dropWhile_cons_of_neg hblank]
      obtain ⟨b, rest, hcons⟩ : ∃ b rest, utf8 (c :: text) = b :: rest :=
        List.exists_cons_of_ne_nil (by simp [utf8_eq_nil])
      rw [hcons] at hhead ⊢
      rw [List.dropWhile_cons_of_neg]
      simp only [List.head?_cons, Option.any_some] at hhead
      rw [hhead]
      exact hblank

theorem strip_literal (literal : List Char) (h : ∀ c ∈ literal, c.toNat < 128) (text : Text) :
    (utf8 literal).isPrefixOf? (utf8 text) = (literal.isPrefixOf? text).map utf8 := by
  induction literal generalizing text with
  | nil => rfl
  | cons c literal ih =>
    rw [List.forall_mem_cons] at h
    rw [utf8_cons, encode_ascii h.1]
    cases text with
    | nil => rfl
    | cons d text =>
      have hhead := head_utf8 (t := d :: text) h.1
      obtain ⟨b, rest, hcons⟩ : ∃ b rest, utf8 (d :: text) = b :: rest :=
        List.exists_cons_of_ne_nil (by simp [utf8_eq_nil])
      rw [hcons] at hhead ⊢
      simp only [List.head?_cons, Option.some.injEq] at hhead
      by_cases heq : d = c
      · subst heq
        rw [utf8_cons, encode_ascii h.1] at hcons
        obtain ⟨rfl, rfl⟩ := List.cons.inj hcons
        simpa [List.isPrefixOf?] using ih h.2 text
      · have hne : ¬ b = UInt8.ofNat c.toNat := fun hb => heq (hhead.mp hb)
        simp [List.isPrefixOf?, Ne.symm hne, Ne.symm heq]

theorem strip_ascii (literal : String) (h : ∀ c ∈ literal.toList, c.toNat < 128) (text : Text) :
    (bytes.literal literal).isPrefixOf? (utf8 text) =
      ((characters.literal literal).isPrefixOf? text).map utf8 :=
  strip_literal literal.toList h text

theorem comment_utf8 (text : Text) :
    comment bytes (utf8 text) = (comment characters text).map fun r => (r.1, utf8 r.2) := by
  simp only [comment, strip_ascii "#" (by decide), strip_ascii "//" (by decide),
    strip_ascii "<!--" (by decide)]
  cases (characters.literal "#").isPrefixOf? text <;>
    cases (characters.literal "//").isPrefixOf? text <;>
      cases (characters.literal "<!--").isPrefixOf? text <;> rfl

theorem kind_utf8 (text : Text) :
    kindOf bytes (utf8 text) = (kindOf characters text).map fun r => (r.1, utf8 r.2) := by
  simp only [kindOf, strip_ascii "begin" (by decide), strip_ascii "end" (by decide)]
  cases (characters.literal "begin").isPrefixOf? text <;>
    cases (characters.literal "end").isPrefixOf? text <;> rfl

theorem opening_utf8 (text : Text) :
    opening bytes (utf8 text) =
      (opening characters text).map fun r => (r.1, r.2.1, utf8 r.2.2) := by
  simp only [opening, drop_blanks, comment_utf8]
  cases comment characters (text.dropWhile characters.blank) with
  | none => rfl
  | some parsed =>
    simp only [Option.map_some, Option.bind_eq_bind, Option.bind_some, drop_blanks,
      strip_ascii "template:" (by decide)]
    cases (characters.literal "template:").isPrefixOf? (parsed.2.dropWhile characters.blank) with
    | none => rfl
    | some rest =>
      simp only [Option.map_some, Option.bind_some, kind_utf8]
      cases kindOf characters rest <;> rfl

end Encoding

section Openings

theorem strip_some {α : Type} [BEq α] [LawfulBEq α] {lead xs rest : List α} :
    lead.isPrefixOf? xs = some rest ↔ xs = lead ++ rest := by
  induction lead generalizing xs with
  | nil => simp [List.isPrefixOf?]
  | cons a lead ih =>
    cases xs with
    | nil => simp [List.isPrefixOf?]
    | cons b xs =>
      by_cases hab : a = b
      · subst hab
        simp [List.isPrefixOf?, ih]
      · simp [List.isPrefixOf?, hab, Ne.symm hab]

/-- Fixed text of a marker: it starts with no blank and holds no line boundary. -/
def Fixed (lead : Text) : Prop :=
  lead.head?.any characters.blank = false ∧ lead ≠ [] ∧ ∀ c ∈ lead, isBoundary c = false

theorem comment_split {html : Bool} {xs rest : Text} (h : comment characters xs = some (html, rest)) :
    ∃ lead, xs = lead ++ rest ∧ Fixed lead ∧
      ∀ rest', comment characters (lead ++ rest') = some (html, rest') := by
  simp only [comment, Option.orElse_eq_orElse, Option.orElse_eq_or, Option.or_eq_some_iff,
    Option.map_eq_some_iff, strip_some] at h
  rcases h with ⟨r, hxs, hr⟩ | ⟨-, ⟨r, hxs, hr⟩ | ⟨-, r, hxs, hr⟩⟩ <;> cases hr
  · exact ⟨_, hxs, ⟨by decide, by decide, by decide⟩, fun rest' => rfl⟩
  · exact ⟨_, hxs, ⟨by decide, by decide, by decide⟩, fun rest' => rfl⟩
  · exact ⟨_, hxs, ⟨by decide, by decide, by decide⟩, fun rest' => rfl⟩

theorem kind_split {kind : Kind} {xs rest : Text} (h : kindOf characters xs = some (kind, rest)) :
    ∃ lead, xs = lead ++ rest ∧ Fixed lead ∧
      ∀ rest', kindOf characters (lead ++ rest') = some (kind, rest') := by
  simp only [kindOf, Option.orElse_eq_orElse, Option.orElse_eq_or, Option.or_eq_some_iff,
    Option.map_eq_some_iff, strip_some] at h
  rcases h with ⟨r, hxs, hr⟩ | ⟨-, r, hxs, hr⟩ <;> cases hr
  · exact ⟨_, hxs, ⟨by decide, by decide, by decide⟩, fun rest' => rfl⟩
  · exact ⟨_, hxs, ⟨by decide, by decide, by decide⟩, fun rest' => rfl⟩

theorem drop_blanks_fixed {blanks lead rest : Text}
    (hblanks : ∀ c ∈ blanks, characters.blank c = true) (hlead : Fixed lead) :
    (blanks ++ (lead ++ rest)).dropWhile characters.blank = lead ++ rest := by
  rw [List.dropWhile_append_of_pos hblanks]
  obtain ⟨c, lead, rfl⟩ := List.exists_cons_of_ne_nil hlead.2.1
  rw [List.cons_append, List.dropWhile_cons_of_neg]
  simpa using hlead.1

theorem blank_not_boundary {c : Char} (h : characters.blank c = true) : isBoundary c = false := by
  rcases blank_char.mp h with rfl | rfl <;> decide

theorem template_fixed : Fixed (characters.literal "template:") :=
  ⟨by decide, by decide, by decide⟩

/-- The text an opening takes up holds no line boundary, and opens whatever follows it. -/
theorem opening_split {html : Bool} {kind : Kind} {xs rest : Text}
    (h : opening characters xs = some (html, kind, rest)) :
    ∃ taken, xs = taken ++ rest ∧ taken ≠ [] ∧ (∀ c ∈ taken, isBoundary c = false) ∧
      ∀ rest', opening characters (taken ++ rest') = some (html, kind, rest') := by
  simp only [opening, Option.bind_eq_bind, Option.bind_eq_some_iff, strip_some] at h
  obtain ⟨⟨html', behind⟩, hcomment, inner, htemplate, ⟨kind', end'⟩, hkind, hresult⟩ := h
  cases hresult
  obtain ⟨mark, hmark, hmarkFixed, hmarkAll⟩ := comment_split hcomment
  obtain ⟨word, hword, hwordFixed, hwordAll⟩ := kind_split hkind
  have hindent : ∀ c ∈ xs.takeWhile characters.blank, characters.blank c = true :=
    fun c hc => List.mem_takeWhile_imp hc
  have hgap : ∀ c ∈ behind.takeWhile characters.blank, characters.blank c = true :=
    fun c hc => List.mem_takeWhile_imp hc
  refine ⟨xs.takeWhile characters.blank ++ (mark ++ (behind.takeWhile characters.blank ++
    (characters.literal "template:" ++ word))), ?_, ?_, ?_, ?_⟩
  · have hbehind := List.takeWhile_append_dropWhile (p := characters.blank) (l := behind)
    have hxs := List.takeWhile_append_dropWhile (p := characters.blank) (l := xs)
    rw [htemplate, hword] at hbehind
    rw [hmark] at hxs
    conv_lhs => rw [← hxs, ← hbehind]
    simp only [List.append_assoc]
  · simp [hmarkFixed.2.1]
  · intro c hc
    simp only [List.mem_append] at hc
    rcases hc with hc | hc | hc | hc | hc
    · exact blank_not_boundary (hindent c hc)
    · exact hmarkFixed.2.2 c hc
    · exact blank_not_boundary (hgap c hc)
    · exact template_fixed.2.2 c hc
    · exact hwordFixed.2.2 c hc
  · intro rest'
    simp only [opening, Option.bind_eq_bind, Option.bind_eq_some_iff, strip_some]
    refine ⟨(html', behind.takeWhile characters.blank ++
      (characters.literal "template:" ++ (word ++ rest'))), ?_, word ++ rest', ?_,
      (kind', rest'), hwordAll rest', rfl⟩
    · simp only [List.append_assoc]
      rw [drop_blanks_fixed hindent hmarkFixed]
      exact hmarkAll _
    · exact drop_blanks_fixed hgap template_fixed

/-- A prefix of a line: an opening before a blank, a newline at the end, or the end. -/
theorem prefixed_iff {line : Text} : prefixed line = true ↔
    ∃ html kind rest, opening characters line = some (html, kind, rest) ∧
      (rest.head?.any characters.blank = true ∨ rest = [] ∨ rest = ['\n']) := by
  rw [prefixed, markerPrefix]
  split
  · next h => simp [h]
  · next html kind rest h => simp [h, textEnd]

theorem profile_marker_prefix_iff {text : Text} : profileMarkerPrefix (utf8 text) = true ↔
    ∃ html kind rest, opening characters text = some (html, kind, rest) ∧
      (rest.head?.any characters.blank = true ∨ rest = [] ∨ rest.head? = some '\n') := by
  rw [profileMarkerPrefix, markerPrefix, opening_utf8]
  cases h : opening characters text with
  | none => simp
  | some parsed =>
    obtain ⟨html, kind, rest⟩ := parsed
    have hnewline := head_utf8 (t := rest) (c := '\n') (by decide)
    have hten : UInt8.ofNat '\n'.toNat = 10 := by decide
    rw [hten] at hnewline
    simp [lineEnd, head_blank, utf8_eq_nil, hnewline]

theorem prefix_of_line {contents : Bytes} (h : profileMarkerLine contents = true) :
    profileMarkerPrefix contents = true := by
  rw [profileMarkerLine] at h
  split at h
  · cases h
  · next hwhole =>
    simp only [wholeMarker, Option.bind_eq_bind, Option.bind_eq_some_iff] at hwhole
    obtain ⟨⟨html, kind, rest⟩, hopening, hwhole⟩ := hwhole
    rw [profileMarkerPrefix, markerPrefix, hopening]
    dsimp only at hwhole ⊢
    split at hwhole
    · cases hwhole
    · next hblank => simpa using .inl (by simpa using hblank)

theorem prefixed_of_marker {line : Text} {parsed : Kind × Text × Text}
    (h : marker (rstrip line) = some parsed) : prefixed line = true := by
  rw [marker] at h
  split at h
  · next hwhole =>
    simp only [wholeMarker, Option.bind_eq_bind, Option.bind_eq_some_iff] at hwhole
    obtain ⟨⟨html, kind, rest⟩, hopening, hwhole⟩ := hwhole
    obtain ⟨taken, htaken, -, -, hall⟩ := opening_split hopening
    obtain ⟨stripped, hstripped⟩ : ∃ stripped, line = rstrip line ++ stripped :=
      (List.rdropWhile_prefix _ line).imp fun _ h => h.symm
    rw [htaken, List.append_assoc] at hstripped
    dsimp only at hwhole
    split at hwhole
    · cases hwhole
    · next hblank =>
      refine prefixed_iff.mpr ⟨html, kind, rest ++ stripped, ?_, .inl ?_⟩
      · rw [hstripped]
        exact hall _
      · cases rest with
        | nil => simp at hblank
        | cons c rest => simpa using hblank
  · cases h

end Openings

section Recognisers

theorem search_after_skip (matches? : Bytes → Bool) {skipped : Bytes} (h : (10 : UInt8) ∉ skipped)
    (rest : Bytes) : searchAfter matches? (skipped ++ rest) = searchAfter matches? rest := by
  induction skipped with
  | nil => rfl
  | cons b skipped ih =>
    rw [List.mem_cons, not_or] at h
    rw [List.cons_append, searchAfter, beq_eq_false_iff_ne.mpr (Ne.symm h.1), Bool.false_and,
      Bool.false_or, ih h.2]

theorem search_after_utf8 (matches? : Bytes → Bool) (text : Text) :
    searchAfter matches? (utf8 text) = true ↔
      ∃ init after, text = init ++ '\n' :: after ∧ matches? (utf8 after) = true := by
  induction text with
  | nil => simp [utf8, searchAfter]
  | cons c text ih =>
    by_cases hnewline : c = '\n'
    · subst hnewline
      have hstep : searchAfter matches? (utf8 ('\n' :: text)) =
          (matches? (utf8 text) || searchAfter matches? (utf8 text)) := rfl
      rw [hstep, Bool.or_eq_true, ih]
      constructor
      · rintro (h | ⟨init, after, rfl, h⟩)
        · exact ⟨[], text, rfl, h⟩
        · exact ⟨'\n' :: init, after, rfl, h⟩
      · rintro ⟨init, after, htext, h⟩
        cases init with
        | nil => cases htext; exact .inl h
        | cons d init =>
          obtain ⟨rfl, rfl⟩ := List.cons.inj htext
          exact .inr ⟨init, after, rfl, h⟩
    · have hten : (10 : UInt8) ∉ String.utf8EncodeChar c := by
        intro hmem
        have heq := encode_char_ascii_byte hmem (by decide)
        exact hnewline (Char.toNat_inj.mp heq)
      rw [utf8_cons, search_after_skip matches? hten, ih]
      constructor
      · rintro ⟨init, after, rfl, h⟩
        exact ⟨c :: init, after, rfl, h⟩
      · rintro ⟨init, after, htext, h⟩
        cases init with
        | nil => exact absurd (List.cons.inj htext).1 hnewline
        | cons d init =>
          obtain ⟨-, rfl⟩ := List.cons.inj htext
          exact ⟨init, after, rfl, h⟩

/-- The recogniser over bytes finds a prefix at the start of the text or after a newline. -/
theorem contains_iff (text : Text) : containsProfileMarker (utf8 text) = true ↔
    ∃ before after, text = before ++ after ∧ (before = [] ∨ ∃ init, before = init ++ ['\n']) ∧
      profileMarkerPrefix (utf8 after) = true := by
  have hsearch : ∀ p : Bytes → Bool, search p (utf8 text) = true ↔
      ∃ before after, text = before ++ after ∧ (before = [] ∨ ∃ init, before = init ++ ['\n']) ∧
        p (utf8 after) = true := by
    intro p
    rw [search, Bool.or_eq_true, search_after_utf8]
    constructor
    · rintro (h | ⟨init, after, rfl, h⟩)
      · exact ⟨[], text, rfl, .inl rfl, h⟩
      · exact ⟨init ++ ['\n'], after, by simp, .inr ⟨init, rfl⟩, h⟩
    · rintro ⟨before, after, rfl, rfl | ⟨init, rfl⟩, h⟩
      · exact .inl h
      · exact .inr ⟨init, after, by simp, h⟩
  rw [containsProfileMarker, Bool.or_eq_true, hsearch, hsearch]
  constructor
  · rintro (⟨before, after, htext, hbefore, h⟩ | h)
    · exact ⟨before, after, htext, hbefore, prefix_of_line h⟩
    · exact h
  · exact .inr

/-- What follows the opening on its line: nothing, a newline, or what starts with the same blank. -/
theorem prefixed_first {taken rest : Text} {html : Bool} {kind : Kind} (hne : taken ≠ [])
    (hplain : ∀ c ∈ taken, isBoundary c = false)
    (hall : ∀ rest, opening characters (taken ++ rest) = some (html, kind, rest))
    (hrest : rest.head?.any characters.blank = true ∨ rest = [] ∨ rest.head? = some '\n') :
    ∃ line lines, splitlines (taken ++ rest) = line :: lines ∧ prefixed line = true := by
  cases rest with
  | nil =>
    have hwhole := hall []
    rw [List.append_nil] at hwhole ⊢
    exact ⟨taken, [], splitlines_plain hne hplain,
      prefixed_iff.mpr ⟨html, kind, [], hwhole, .inr (.inl rfl)⟩⟩
  | cons c rest =>
    obtain ⟨line, lines, hlines⟩ := splitlines_cons c rest
    rw [splitlines_plain_append hplain, hlines, foldr_push_cons]
    refine ⟨_, lines, rfl, prefixed_iff.mpr ⟨html, kind, _, hall _, ?_⟩⟩
    rcases hrest with hblank | hnil | hnewline
    · exact .inl (by simpa using hblank)
    · cases hnil
    · obtain rfl : c = '\n' := by simpa using hnewline
      rw [splitlines_newline] at hlines
      obtain ⟨hline, -⟩ := List.cons.inj hlines
      exact .inr (.inr hline.symm)

/-- For every text: the recogniser over bytes marks it for a line with the prefix, as the line stands
in the text, that starts the text or follows a newline. -/
theorem contains_iff_line (text : Text) : containsProfileMarker (utf8 text) = true ↔
    ∃ before line after, splitlines text = before ++ line :: after ∧
      (before = [] ∨ ∃ init, before.flatten = init ++ ['\n']) ∧ prefixed line = true := by
  rw [contains_iff]
  constructor
  · rintro ⟨before, after, rfl, hbefore, hprefix⟩
    obtain ⟨html, kind, rest, hopening, hrest⟩ := profile_marker_prefix_iff.mp hprefix
    obtain ⟨taken, rfl, hne, hplain, hall⟩ := opening_split hopening
    obtain ⟨line, lines, hlines, hprefixed⟩ := prefixed_first hne hplain hall hrest
    rcases hbefore with rfl | ⟨init, rfl⟩
    · exact ⟨[], line, lines, hlines, .inl rfl, hprefixed⟩
    · refine ⟨splitlines (init ++ ['\n']), line, lines, ?_, .inr ⟨init, splitlines_flatten _⟩,
        hprefixed⟩
      rw [List.append_assoc, List.singleton_append, splitlines_append, hlines]
  · rintro ⟨before, line, after, hsplit, hbefore, hprefixed⟩
    have htext := splitlines_flatten text
    rw [hsplit, List.flatten_append, List.flatten_cons] at htext
    obtain ⟨html, kind, rest, hopening, hrest⟩ := prefixed_iff.mp hprefixed
    obtain ⟨taken, rfl, -, hplain, hall⟩ := opening_split hopening
    refine ⟨before.flatten, _, htext.symm, hbefore.imp_left fun hnil => by rw [hnil]; rfl,
      profile_marker_prefix_iff.mpr ⟨html, kind, rest ++ after.flatten, ?_, ?_⟩⟩
    · rw [List.append_assoc]
      exact hall _
    · rcases hrest with hblank | rfl | rfl
      · cases rest with
        | nil => cases hblank
        | cons c rest => exact .inl hblank
      · -- A line that ends with the opening has no terminator, so it is the last one.
        cases after with
        | nil => exact .inr (.inl rfl)
        | cons next after =>
          have htaken : taken ++ [] ∈ (splitlines text).dropLast := by rw [hsplit]; simp
          obtain ⟨init, c, heq, hboundary⟩ := splitlines_terminated htaken
          rw [List.append_nil] at heq
          have hinner := hplain c (by simp [heq])
          rw [hboundary] at hinner
          cases hinner
      · exact .inr (.inr rfl)

/-- The translation of newlines takes no prefix away. -/
theorem prefixed_universal {line : Text} (h : prefixed line = true) :
    prefixed (universal line) = true := by
  obtain ⟨html, kind, rest, hopening, hrest⟩ := prefixed_iff.mp h
  obtain ⟨taken, rfl, -, hplain, hall⟩ := opening_split hopening
  rw [universal_plain_append (no_return hplain)]
  refine prefixed_iff.mpr ⟨html, kind, universal rest, hall _, ?_⟩
  rcases hrest with hblank | rfl | rfl
  · cases rest with
    | nil => cases hblank
    | cons c rest =>
      have hblank : characters.blank c = true := by simpa using hblank
      have hc : c ≠ '\r' := by
        rintro rfl
        cases hblank
      rw [universal, if_neg hc]
      exact .inl (by simpa using hblank)
  · exact .inr (.inl rfl)
  · exact .inr (.inr rfl)

/-- What the recogniser over bytes marks has a marker line as the files are read. -/
theorem prefixed_of_contains {text : Text} (h : containsProfileMarker (utf8 text) = true) :
    ∃ line ∈ splitlines (universal text), prefixed line = true := by
  obtain ⟨before, line, after, hsplit, -, hprefixed⟩ := (contains_iff_line text).mp h
  refine ⟨universal line, ?_, prefixed_universal hprefixed⟩
  rw [splitlines_universal, hsplit]
  exact List.mem_map_of_mem (by simp)

/-- Where newlines are the only boundaries, both recognisers mark the same texts. -/
theorem contains_iff_prefixed {text : Text} (honly : ∀ c ∈ text, isBoundary c = true → c = '\n') :
    containsProfileMarker (utf8 text) = true ↔
      ∃ line ∈ splitlines (universal text), prefixed line = true := by
  refine ⟨prefixed_of_contains, ?_⟩
  rintro ⟨line, hline, hprefixed⟩
  have hreturn : '\r' ∉ text := fun hmem => absurd (honly _ hmem boundary_return) (by decide)
  rw [universal_of_no_return hreturn] at hline
  obtain ⟨before, after, rfl, hbefore, hafter⟩ := line_placed hreturn honly hline
  obtain ⟨html, kind, rest, hopening, hrest⟩ := prefixed_iff.mp hprefixed
  obtain ⟨taken, rfl, hne, hplain, hall⟩ := opening_split hopening
  refine (contains_iff _).mpr ⟨before, _, rfl, hbefore, profile_marker_prefix_iff.mpr
    ⟨html, kind, rest ++ after, by rw [List.append_assoc]; exact hall _, ?_⟩⟩
  rcases hrest with hblank | rfl | rfl
  · cases rest with
    | nil => simp at hblank
    | cons c rest => exact .inl (by simpa using hblank)
  · rcases hafter with rfl | hlast
    · exact .inr (.inl rfl)
    · rw [List.append_nil] at hlast
      exact absurd (hplain _ (List.mem_of_getLast? hlast)) (by decide)
  · exact .inr (.inr rfl)

end Recognisers

/-- A line of a file as it is read, less its newline, as a marker. -/
def markerOf (line : Text) : Option (Kind × Text × Text) := marker (rstrip (universal line))

/-- A line of a file that has the marker prefix as it is read. -/
def carries (line : Text) : Bool := prefixed (universal line)

theorem carries_of_marker {line : Text} {parsed : Kind × Text × Text}
    (h : markerOf line = some parsed) : carries line = true := prefixed_of_marker h

/-- A piece of a file: a line outside of all regions, or a marked region. -/
inductive Segment where
  | plain (line : Text)
  | region (profile id opening : Text) (body : List Text) (closing : Text)

def Segment.lines : Segment → List Text
  | .plain line => [line]
  | .region _ _ opening body closing => opening :: (body ++ [closing])

def Segment.kept (selected : Text → Bool) : Segment → List Text
  | .plain line => [line]
  | .region profile _ _ body _ => if selected profile then body else []

def Segment.keys (relative : Text) : Segment → List Key
  | .plain _ => []
  | .region profile id _ _ _ => [(profile, relative, id)]

/-- A region has its own markers around lines that carry none. -/
def Segment.Valid : Segment → Prop
  | .plain line => carries line = false
  | .region profile id opening body closing =>
    markerOf opening = some (.begins, profile, id) ∧ (∀ line ∈ body, carries line = false) ∧
      markerOf closing = some (.ends, profile, id)

def keysOf (relative : Text) (segments : List Segment) : List Key :=
  segments.flatMap (Segment.keys relative)

def keptOf (selected : Text → Bool) (segments : List Segment) : List Text :=
  segments.flatMap (Segment.kept selected)

/-- The lines of a file as plain lines and regions, one after the other. -/
structure Shaped (lines : List Text) (segments : List Segment) : Prop where
  lines : segments.flatMap Segment.lines = lines
  valid : ∀ segment ∈ segments, segment.Valid

theorem shaped_nil : Shaped [] [] := ⟨rfl, by simp⟩

theorem shaped_nil_segments {segments : List Segment} (h : Shaped [] segments) : segments = [] := by
  cases segments with
  | nil => rfl
  | cons segment segments =>
    have hlines := h.lines
    cases segment <;> simp [Segment.lines] at hlines

section Runs

variable {expected : List Key} {selected : Text → Bool} {relative : Text}

def Fresh (expected seen keys : List Key) : Prop :=
  keys.Nodup ∧ ∀ key ∈ keys, key ∈ expected ∧ key ∉ seen

theorem fresh_cons {seen keys : List Key} {key : Key} : Fresh expected seen (key :: keys) ↔
    key ∈ expected ∧ key ∉ seen ∧ Fresh expected (seen ++ [key]) keys := by
  simp only [Fresh, List.nodup_cons, List.forall_mem_cons, List.mem_append, List.mem_singleton,
    not_or]
  constructor
  · rintro ⟨⟨hnew, hnodup⟩, ⟨hexpected, hseen⟩, hall⟩
    refine ⟨hexpected, hseen, hnodup, fun other hother => ?_⟩
    exact ⟨(hall other hother).1, (hall other hother).2, fun heq => hnew (heq ▸ hother)⟩
  · rintro ⟨hexpected, hseen, hnodup, hall⟩
    refine ⟨⟨fun hmem => (hall key hmem).2.2 rfl, hnodup⟩, ⟨hexpected, hseen⟩, ?_⟩
    exact fun other hother => ⟨(hall other hother).1, (hall other hother).2.1⟩

/-- What a file leaves behind that is read on outside of all regions. -/
def Outside (expected : List Key) (selected : Text → Bool) (relative : Text) (lines : List Text)
    (s t : Progress) : Prop :=
  ∃ segments, Shaped lines segments ∧ Fresh expected s.seen (keysOf relative segments) ∧
    t = ⟨[], s.transformed ++ (keptOf selected segments).map universal,
      s.found || !(keysOf relative segments).isEmpty, s.seen ++ keysOf relative segments⟩

/-- What a file leaves behind that is read on inside a region. -/
def Inside (expected : List Key) (selected : Text → Bool) (relative profile id : Text)
    (lines : List Text) (s t : Progress) : Prop :=
  ∃ body closing rest segments, lines = body ++ closing :: rest ∧
    (∀ line ∈ body, carries line = false) ∧ markerOf closing = some (.ends, profile, id) ∧
    (profile, relative, id) ∈ expected ∧ Shaped rest segments ∧
    Fresh expected s.seen (keysOf relative segments) ∧
    t = ⟨[], s.transformed ++
      ((if selected profile then body else []) ++ keptOf selected segments).map universal, true,
      s.seen ++ keysOf relative segments⟩

def enclosed (selected : Text → Bool) (profile line : Text) : List Text :=
  if selected profile then [universal line] else []

theorem outside_cons {line : Text} {lines : List Text} {s t : Progress} :
    Outside expected selected relative (line :: lines) s t ↔
      (carries line = false ∧ Outside expected selected relative lines
        { s with transformed := s.transformed ++ [universal line] } t) ∨
      ∃ profile id, markerOf line = some (.begins, profile, id) ∧
        (profile, relative, id) ∈ expected ∧ (profile, relative, id) ∉ s.seen ∧
        Inside expected selected relative profile id lines
          { s with stack := [(profile, id)], found := true,
                   seen := s.seen ++ [(profile, relative, id)] } t := by
  constructor
  · rintro ⟨segments, hshaped, hfresh, rfl⟩
    obtain ⟨hlines, hvalid⟩ := hshaped
    cases segments with
    | nil => cases hlines
    | cons segment segments =>
      rw [List.forall_mem_cons] at hvalid
      cases segment with
      | plain first =>
        obtain ⟨rfl, hrest⟩ := List.cons.inj hlines
        refine .inl ⟨hvalid.1, segments, ⟨hrest, hvalid.2⟩, hfresh, ?_⟩
        simp [keysOf, keptOf, Segment.keys, Segment.kept]
      | region profile id opening body closing =>
        obtain ⟨rfl, hrest⟩ := List.cons.inj hlines
        obtain ⟨hexpected, hseen, hfresh⟩ := fresh_cons.mp hfresh
        refine .inr ⟨profile, id, hvalid.1.1, hexpected, hseen, body, closing, _, segments, ?_,
          hvalid.1.2.1, hvalid.1.2.2, hexpected, ⟨rfl, hvalid.2⟩, hfresh, ?_⟩
        · rw [← hrest, List.flatMap_def]
          simp
        · simp [keysOf, keptOf, Segment.keys, Segment.kept]
  · rintro (⟨hplain, segments, hshaped, hfresh, rfl⟩ |
      ⟨profile, id, hmarker, hexpected, hseen, body, closing, rest, segments, rfl, hbody, hclosing,
        -, hshaped, hfresh, rfl⟩)
    · refine ⟨.plain line :: segments, ⟨?_, ?_⟩, hfresh, ?_⟩
      · rw [List.flatMap_cons, hshaped.lines]
        rfl
      · exact List.forall_mem_cons.mpr ⟨hplain, hshaped.valid⟩
      · simp [keysOf, keptOf, Segment.keys, Segment.kept]
    · refine ⟨.region profile id line body closing :: segments, ⟨?_, ?_⟩,
        fresh_cons.mpr ⟨hexpected, hseen, hfresh⟩, ?_⟩
      · rw [List.flatMap_cons, hshaped.lines]
        simp [Segment.lines]
      · exact List.forall_mem_cons.mpr ⟨⟨hmarker, hbody, hclosing⟩, hshaped.valid⟩
      · simp [keysOf, keptOf, Segment.keys, Segment.kept]

theorem inside_cons {profile id line : Text} {lines : List Text} {s t : Progress} :
    Inside expected selected relative profile id (line :: lines) s t ↔
      (carries line = false ∧ Inside expected selected relative profile id lines
        { s with transformed := s.transformed ++ enclosed selected profile line } t) ∨
      (markerOf line = some (.ends, profile, id) ∧ (profile, relative, id) ∈ expected ∧
        Outside expected selected relative lines { s with stack := [], found := true } t) := by
  constructor
  · rintro ⟨body, closing, rest, segments, hlines, hbody, hclosing, hexpected, hshaped, hfresh, rfl⟩
    cases body with
    | nil =>
      obtain ⟨rfl, rfl⟩ := List.cons.inj hlines
      refine .inr ⟨hclosing, hexpected, segments, hshaped, hfresh, ?_⟩
      simp
    | cons first body =>
      obtain ⟨rfl, rfl⟩ := List.cons.inj hlines
      rw [List.forall_mem_cons] at hbody
      refine .inl ⟨hbody.1, body, closing, rest, segments, rfl, hbody.2, hclosing, hexpected,
        hshaped, hfresh, ?_⟩
      by_cases hselected : selected profile = true <;> simp [enclosed, hselected]
  · rintro (⟨hplain, body, closing, rest, segments, rfl, hbody, hclosing, hexpected, hshaped,
      hfresh, rfl⟩ | ⟨hclosing, hexpected, segments, hshaped, hfresh, rfl⟩)
    · refine ⟨line :: body, closing, rest, segments, rfl,
        List.forall_mem_cons.mpr ⟨hplain, hbody⟩, hclosing, hexpected, hshaped, hfresh, ?_⟩
      by_cases hselected : selected profile = true <;> simp [enclosed, hselected]
    · refine ⟨[], line, lines, segments, rfl, by simp, hclosing, hexpected, hshaped, hfresh, ?_⟩
      simp

theorem line_step_outside {line : Text} {s u : Progress} (hstack : s.stack = []) :
    lineStep expected selected relative s (universal line) = .ok u ↔
      (carries line = false ∧ u = { s with transformed := s.transformed ++ [universal line] }) ∨
      ∃ profile id, markerOf line = some (.begins, profile, id) ∧
        (profile, relative, id) ∈ expected ∧ (profile, relative, id) ∉ s.seen ∧
        u = { s with stack := [(profile, id)], found := true,
                     seen := s.seen ++ [(profile, relative, id)] } := by
  rcases hmarker : markerOf line with _ | ⟨kind, profile, id⟩
  · have hmarker' : marker (rstrip (universal line)) = none := hmarker
    rcases hcarries : carries line with _ | _
    · have hprefixed : prefixed (universal line) = false := hcarries
      simp [lineStep, hmarker', hprefixed, hstack, eq_comm]
    · have hprefixed : prefixed (universal line) = true := hcarries
      simp [lineStep, hmarker', hprefixed]
  · have hmarker' : marker (rstrip (universal line)) = some (kind, profile, id) := hmarker
    have hcarries := carries_of_marker hmarker
    by_cases hexpected : (profile, relative, id) ∈ expected
    · cases kind with
      | begins =>
        by_cases hseen : (profile, relative, id) ∈ s.seen
        · simp only [lineStep, hmarker', hstack, hexpected, hseen]
          simp [hcarries, hseen]
        · simp [lineStep, hmarker', hstack, hexpected, hseen, hcarries, eq_comm]
      | ends => simp [lineStep, hmarker', hstack, hexpected, hcarries]
    · simp only [lineStep, hmarker', hexpected]
      simp only [not_false_eq_true, if_true, hcarries]
      constructor
      · intro h
        cases h
      · rintro (⟨h, -⟩ | ⟨p, i, h, hin, -⟩)
        · cases h
        · cases h
          exact absurd hin hexpected

theorem line_step_inside {profile id line : Text} {s u : Progress} (hstack : s.stack = [(profile, id)]) :
    lineStep expected selected relative s (universal line) = .ok u ↔
      (carries line = false ∧
        u = { s with transformed := s.transformed ++ enclosed selected profile line }) ∨
      (markerOf line = some (.ends, profile, id) ∧ (profile, relative, id) ∈ expected ∧
        u = { s with stack := [], found := true }) := by
  rcases hmarker : markerOf line with _ | ⟨kind, profile', id'⟩
  · have hmarker' : marker (rstrip (universal line)) = none := hmarker
    rcases hcarries : carries line with _ | _
    · have hprefixed : prefixed (universal line) = false := hcarries
      by_cases hselected : selected profile = true
      · simp [lineStep, hmarker', hprefixed, hstack, enclosed, hselected, eq_comm]
      · have hskipped : (s.stack.getLast?.any fun enclosing => !selected enclosing.1) = true := by
          simp [hstack, hselected]
        simp only [lineStep, hmarker', hprefixed, hskipped, enclosed]
        simp only [hselected]
        simpa using eq_comm
    · have hprefixed : prefixed (universal line) = true := hcarries
      simp [lineStep, hmarker', hprefixed]
  · have hmarker' : marker (rstrip (universal line)) = some (kind, profile', id') := hmarker
    have hcarries := carries_of_marker hmarker
    by_cases hexpected : (profile', relative, id') ∈ expected
    · cases kind with
      | begins => simp [lineStep, hmarker', hstack, hexpected, hcarries]
      | ends =>
        by_cases hsame : (profile', id') = (profile, id)
        · obtain ⟨rfl, rfl⟩ := Prod.mk.inj hsame
          simp [lineStep, hmarker', hstack, hexpected, hcarries, eq_comm]
        · simp only [lineStep, hmarker', hstack, hexpected, hcarries]
          constructor
          · intro h
            simp [Ne.symm hsame] at h
          · rintro (⟨h, -⟩ | ⟨h, -⟩)
            · cases h
            · cases h
              exact absurd rfl hsame
    · simp only [lineStep, hmarker', hexpected]
      simp only [not_false_eq_true, if_true, hcarries]
      constructor
      · intro h
        cases h
      · rintro (⟨h, -⟩ | ⟨h, hin, -⟩)
        · cases h
        · cases h
          exact absurd hin hexpected

variable (expected selected relative) in
/-- What the lines of a file leave behind, outside of a region and inside of one. -/
theorem run_lines (lines : List Text) : ∀ s t : Progress,
    (s.stack = [] →
      (lines.foldlM (fun s line => lineStep expected selected relative s (universal line)) s = .ok t ∧
        t.stack = [] ↔ Outside expected selected relative lines s t)) ∧
    ∀ profile id, s.stack = [(profile, id)] →
      (lines.foldlM (fun s line => lineStep expected selected relative s (universal line)) s = .ok t ∧
        t.stack = [] ↔ Inside expected selected relative profile id lines s t) := by
  induction lines with
  | nil =>
    intro s t
    refine ⟨fun hstack => ?_, fun profile id hstack => ?_⟩
    · constructor
      · rintro ⟨⟨⟩, -⟩
        exact ⟨[], shaped_nil, by simp [Fresh, keysOf], by cases s; simp_all [keysOf, keptOf]⟩
      · rintro ⟨segments, hshaped, -, rfl⟩
        obtain rfl := shaped_nil_segments hshaped
        refine ⟨?_, rfl⟩
        cases s
        simp_all [keysOf, keptOf, pure, Except.pure]
    · constructor
      · rintro ⟨⟨⟩, hnil⟩
        rw [hstack] at hnil
        cases hnil
      · rintro ⟨body, closing, rest, segments, hlines, -⟩
        simp at hlines
  | cons line lines ih =>
    intro s t
    refine ⟨fun hstack => ?_, fun profile id hstack => ?_⟩
    · rw [outside_cons, List.foldlM_cons, bind_ok]
      simp only [line_step_outside hstack]
      constructor
      · rintro ⟨⟨u, ⟨hplain, rfl⟩ | ⟨profile, id, hmarker, hexpected, hseen, rfl⟩, hrun⟩, ht⟩
        · exact .inl ⟨hplain, ((ih { s with transformed := s.transformed ++ [universal line] } t).1 hstack).mp ⟨hrun, ht⟩⟩
        · exact .inr ⟨profile, id, hmarker, hexpected, hseen,
            ((ih _ t).2 profile id rfl).mp ⟨hrun, ht⟩⟩
      · rintro (⟨hplain, houtside⟩ | ⟨profile, id, hmarker, hexpected, hseen, hinside⟩)
        · obtain ⟨hrun, ht⟩ := ((ih { s with transformed := s.transformed ++ [universal line] } t).1 hstack).mpr houtside
          exact ⟨⟨_, .inl ⟨hplain, rfl⟩, hrun⟩, ht⟩
        · obtain ⟨hrun, ht⟩ := ((ih _ t).2 profile id rfl).mpr hinside
          exact ⟨⟨_, .inr ⟨profile, id, hmarker, hexpected, hseen, rfl⟩, hrun⟩, ht⟩
    · rw [inside_cons, List.foldlM_cons, bind_ok]
      simp only [line_step_inside hstack]
      constructor
      · rintro ⟨⟨u, ⟨hplain, rfl⟩ | ⟨hmarker, hexpected, rfl⟩, hrun⟩, ht⟩
        · exact .inl ⟨hplain, ((ih { s with transformed := s.transformed ++ enclosed selected profile line } t).2 profile id
            hstack).mp ⟨hrun, ht⟩⟩
        · exact .inr ⟨hmarker, hexpected, ((ih _ t).1 rfl).mp ⟨hrun, ht⟩⟩
      · rintro (⟨hplain, hinside⟩ | ⟨hmarker, hexpected, houtside⟩)
        · obtain ⟨hrun, ht⟩ := ((ih { s with transformed := s.transformed ++ enclosed selected profile line } t).2 profile id
            hstack).mpr hinside
          exact ⟨⟨_, .inl ⟨hplain, rfl⟩, hrun⟩, ht⟩
        · obtain ⟨hrun, ht⟩ := ((ih _ t).1 rfl).mpr houtside
          exact ⟨⟨_, .inr ⟨hmarker, hexpected, rfl⟩, hrun⟩, ht⟩

/-- The raw lines of a text that the files are judged by. -/
def rawLines (file : File) : Option (List Text) :=
  if isReplayPatch file.1 then none
  else (fromUtf8 file.2).map fun text => splitlines text.toList

/-- How a file is cut into segments; one that is not read has none. -/
def Cut (file : File) (segments : List Segment) : Prop :=
  match rawLines file with
  | none => segments = []
  | some lines => Shaped lines segments

/-- A file with its marker lines and its unselected regions left out; one without is not touched. -/
def projected (selected : Text → Bool) (file : File) (segments : List Segment) : File :=
  if (keysOf file.1 segments).isEmpty then file
  else (file.1, utf8 ((keptOf selected segments).map universal).flatten)

theorem projected_nil (file : File) : projected selected file [] = file := rfl

theorem file_step_ok {seen seen' : List Key} {file file' : File} :
    fileStep expected selected seen file = .ok (file', seen') ↔
      ∃ segments, Cut file segments ∧ Fresh expected seen (keysOf file.1 segments) ∧
        file' = projected selected file segments ∧ seen' = seen ++ keysOf file.1 segments := by
  have hnone : (∃ segments : List Segment, segments = [] ∧
      Fresh expected seen (keysOf file.1 segments) ∧ file' = projected selected file segments ∧
        seen' = seen ++ keysOf file.1 segments) ↔ file' = file ∧ seen' = seen := by
    constructor
    · rintro ⟨_, rfl, -, rfl, rfl⟩
      exact ⟨rfl, by rw [keysOf, List.flatMap_nil, List.append_nil]⟩
    · rintro ⟨rfl, rfl⟩
      exact ⟨[], rfl, by simp [Fresh, keysOf], by simp [projected, keysOf], by simp [keysOf]⟩
  by_cases hreplay : isReplayPatch file.1 = true
  · simp [fileStep, Cut, rawLines, hreplay, hnone, eq_comm]
  · rcases hdecode : fromUtf8 file.2 with _ | text
    · simp [fileStep, Cut, rawLines, readLines, hreplay, hdecode, hnone, eq_comm]
    · have hlines : readLines file.2 = some ((splitlines text.toList).map universal) := by
        simp [readLines, hdecode, splitlines_universal]
      rw [Bool.not_eq_true] at hreplay
      simp only [fileStep, Cut, rawLines, hreplay, hdecode, hlines, Option.map_some, bind_ok,
        List.foldlM_map, Bool.false_eq_true, if_false]
      have hrun := run_lines expected selected file.1
        (splitlines text.toList) ⟨[], [], false, seen⟩
      constructor
      · rintro ⟨s, hfold, h⟩
        split at h
        · cases h
        · next hstack =>
          rw [not_not] at hstack
          obtain ⟨segments, hshaped, hfresh, rfl⟩ := ((hrun s).1 rfl).mp ⟨hfold, hstack⟩
          cases h
          refine ⟨segments, hshaped, hfresh, ?_, rfl⟩
          rcases hempty : (keysOf file.1 segments).isEmpty with _ | _ <;> simp [projected, hempty]
      · rintro ⟨segments, hshaped, hfresh, rfl, rfl⟩
        obtain ⟨hfold, hstack⟩ := ((hrun _).1 rfl).mpr ⟨segments, hshaped, hfresh, rfl⟩
        refine ⟨_, hfold, ?_⟩
        rcases hempty : (keysOf file.1 segments).isEmpty with _ | _ <;> simp [projected, hempty]

def allKeys (files : List File) (marks : List (List Segment)) : List Key :=
  (List.zipWith (fun file segments => keysOf file.1 segments) files marks).flatten

theorem fresh_append {seen keys more : List Key} : Fresh expected seen (keys ++ more) ↔
    Fresh expected seen keys ∧ Fresh expected (seen ++ keys) more := by
  induction keys generalizing seen with
  | nil => simp [Fresh]
  | cons key keys ih =>
    rw [List.cons_append, fresh_cons, fresh_cons, ih]
    simp [and_assoc]

theorem apply_files_ok {files files' : List File} {seen seen' : List Key} :
    applyFiles expected selected files seen = .ok (files', seen') ↔
      ∃ marks, List.Forall₂ Cut files marks ∧ Fresh expected seen (allKeys files marks) ∧
        files' = List.zipWith (projected selected) files marks ∧
        seen' = seen ++ allKeys files marks := by
  induction files generalizing files' seen seen' with
  | nil =>
    constructor
    · rintro ⟨⟩
      exact ⟨[], .nil, by simp [Fresh, allKeys], rfl, by simp [allKeys]⟩
    · rintro ⟨marks, hcut, -, rfl, rfl⟩
      cases hcut
      simp [applyFiles, allKeys]
  | cons file files ih =>
    simp only [applyFiles, bind_ok]
    constructor
    · rintro ⟨⟨first, seen₁⟩, hfirst, ⟨rest, seen₂⟩, hrest, h⟩
      obtain ⟨segments, hcut, hfresh, rfl, rfl⟩ := file_step_ok.mp hfirst
      obtain ⟨marks, hcuts, hfreshes, rfl, rfl⟩ := ih.mp hrest
      cases h
      exact ⟨segments :: marks, .cons hcut hcuts, fresh_append.mpr ⟨hfresh, hfreshes⟩, rfl,
        by simp [allKeys]⟩
    · rintro ⟨marks, hcuts, hfresh, rfl, rfl⟩
      cases hcuts with
      | @cons _ segments _ marks hcut hcuts =>
        obtain ⟨hhead, htail⟩ := fresh_append.mp hfresh
        refine ⟨_, file_step_ok.mpr ⟨segments, hcut, hhead, rfl, rfl⟩, _,
          ih.mpr ⟨marks, hcuts, htail, rfl, rfl⟩, ?_⟩
        simp [allKeys, List.append_assoc]

/-- The files fall into segments whose markers are the entries of the inventory, each once. -/
structure WellMarked (expected : List Key) (files : List File) (marks : List (List Segment)) :
    Prop where
  cut : List.Forall₂ Cut files marks
  once : (allKeys files marks).Nodup
  inventory : ∀ key, key ∈ allKeys files marks ↔ key ∈ expected

theorem apply_markers_ok {files files' : List File} :
    applyMarkers expected selected files = .ok files' ↔
      ∃ marks, WellMarked expected files marks ∧
        files' = List.zipWith (projected selected) files marks := by
  simp only [applyMarkers, bind_ok]
  constructor
  · rintro ⟨⟨result, seen⟩, hfiles, h⟩
    obtain ⟨marks, hcut, hfresh, rfl, rfl⟩ := apply_files_ok.mp hfiles
    dsimp only at h
    split at h
    · next hsame =>
      cases h
      exact ⟨marks, ⟨hcut, hfresh.1, fun key => ⟨hsame.1 key, hsame.2 key⟩⟩, rfl⟩
    · cases h
  · rintro ⟨marks, ⟨hcut, honce, hinventory⟩, rfl⟩
    have hfresh : Fresh expected [] (allKeys files marks) :=
      ⟨honce, fun key hkey => ⟨(hinventory key).mp hkey, List.not_mem_nil⟩⟩
    refine ⟨_, apply_files_ok.mpr ⟨marks, hcut, hfresh, rfl, rfl⟩, ?_⟩
    dsimp only
    rw [if_pos]
    exact ⟨fun key hkey => (hinventory key).mp hkey, fun key hkey => (hinventory key).mpr hkey⟩

end Runs

section Selection

variable {selected : Text → Bool} {path text : Text} {segments : List Segment}

theorem raw_lines_utf8 (h : isReplayPatch path = false) :
    rawLines (path, utf8 text) = some (splitlines text) := by
  have hdecode : fromUtf8 (utf8 text) = some (String.ofList text) := by
    rw [← as_bytes_of_list, from_utf8_as_bytes]
  simp [rawLines, h, hdecode]

theorem cut_utf8 (h : isReplayPatch path = false) (hcut : Cut (path, utf8 text) segments) :
    Shaped (splitlines text) segments := by
  rw [Cut, raw_lines_utf8 h] at hcut
  exact hcut

theorem kept_sublist (segments : List Segment) :
    (keptOf selected segments).Sublist (segments.flatMap Segment.lines) := by
  induction segments with
  | nil => exact .slnil
  | cons segment segments ih =>
    simp only [keptOf, List.flatMap_cons] at ih ⊢
    refine List.Sublist.append ?_ ih
    cases segment with
    | plain line => exact List.Sublist.refl _
    | region profile id opening body closing =>
      simp only [Segment.kept, Segment.lines]
      split
      · exact (List.sublist_append_left body [closing]).trans (List.sublist_cons_self _ _)
      · exact List.nil_sublist _

theorem kept_mono {more : Text → Bool} (h : ∀ profile, selected profile = true → more profile = true)
    (segments : List Segment) : (keptOf selected segments).Sublist (keptOf more segments) := by
  induction segments with
  | nil => exact .slnil
  | cons segment segments ih =>
    simp only [keptOf, List.flatMap_cons] at ih ⊢
    refine List.Sublist.append ?_ ih
    cases segment with
    | plain line => exact List.Sublist.refl _
    | region profile id opening body closing =>
      simp only [Segment.kept]
      by_cases hselected : selected profile = true
      · rw [if_pos hselected, if_pos (h profile hselected)]
      · rw [if_neg hselected]
        exact List.nil_sublist _

theorem kept_plain (selected : Text → Bool) (h : ∀ segment ∈ segments, segment.Valid) :
    ∀ line ∈ keptOf selected segments, carries line = false := by
  intro line hline
  obtain ⟨segment, hsegment, hline⟩ := List.mem_flatMap.mp hline
  have hvalid := h segment hsegment
  cases segment with
  | plain first =>
    rw [List.mem_singleton.mp hline]
    exact hvalid
  | region profile id opening body closing =>
    simp only [Segment.kept] at hline
    split at hline
    · exact hvalid.2.1 line hline
    · cases hline

theorem kept_of_no_keys (selected : Text → Bool) (h : keysOf path segments = []) :
    keptOf selected segments = segments.flatMap Segment.lines := by
  simp only [keptOf, keysOf, List.flatMap_def, List.flatten_eq_nil_iff, List.mem_map] at h ⊢
  congr 1
  apply List.map_congr_left
  intro segment hsegment
  cases segment with
  | plain line => rfl
  | region profile id opening body closing =>
    exact absurd (h _ ⟨_, hsegment, rfl⟩) (List.cons_ne_nil _ _)

theorem universal_universal (line : Text) : universal (universal line) = universal line :=
  universal_of_no_return (universal_no_return line)

/-- The lines of a projected file are the lines it keeps, as they are read. -/
theorem splitlines_kept (hlines : segments.flatMap Segment.lines = splitlines text) :
    splitlines ((keptOf selected segments).map universal).flatten =
      (keptOf selected segments).map universal := by
  have hsub : ((keptOf selected segments).map universal).Sublist (splitlines (universal text)) := by
    rw [splitlines_universal, ← hlines]
    exact (kept_sublist segments).map universal
  refine splitlines_join ((splitlines_lines (universal_no_return text)).sublist hsub) ?_
  intro hmem
  obtain ⟨line, hline, hreturn⟩ := List.mem_flatten.mp hmem
  obtain ⟨raw, -, rfl⟩ := List.mem_map.mp hline
  exact universal_no_return raw hreturn

theorem projected_text (selected : Text → Bool) (path : Text)
    (hshaped : Shaped (splitlines text) segments) :
    ∃ text', (projected selected (path, utf8 text) segments) = (path, utf8 text') ∧
      splitlines text' = (if (keysOf path segments).isEmpty then keptOf selected segments
        else (keptOf selected segments).map universal) ∧
      ∀ line ∈ splitlines text', carries line = false := by
  have hplain := kept_plain selected hshaped.valid
  rcases hempty : (keysOf path segments).isEmpty with _ | _
  · refine ⟨((keptOf selected segments).map universal).flatten, by simp [projected, hempty], ?_, ?_⟩
    · simpa using splitlines_kept hshaped.lines
    · rw [splitlines_kept hshaped.lines]
      intro line hline
      obtain ⟨raw, hraw, rfl⟩ := List.mem_map.mp hline
      rw [carries, universal_universal]
      exact hplain raw hraw
  · have hkept := kept_of_no_keys selected (List.isEmpty_iff.mp hempty)
    refine ⟨text, by simp [projected, hempty], ?_, ?_⟩
    · rw [if_pos rfl, hkept, hshaped.lines]
    · rw [← hshaped.lines, ← hkept]
      exact hplain

theorem no_marker_left {text : Text} (h : ∀ line ∈ splitlines text, carries line = false) :
    containsProfileMarker (utf8 text) = false := by
  rw [Bool.eq_false_iff]
  intro hcontains
  obtain ⟨line, hline, hprefixed⟩ := prefixed_of_contains hcontains
  rw [splitlines_universal] at hline
  obtain ⟨raw, hraw, rfl⟩ := List.mem_map.mp hline
  exact absurd (hprefixed.symm.trans (h raw hraw)) (by decide)

structure Selected (selected : Text → Bool) (path text : Text) (segments : List Segment) : Prop where
  /-- The segments are the lines of the file, cut nowhere else. -/
  whole : segments.flatMap Segment.lines = splitlines text
  untouched : keysOf path segments = [] →
    projected selected (path, utf8 text) segments = (path, utf8 text)
  /-- Where no kept line holds a carriage return, the kept lines are kept byte for byte. -/
  exact : '\r' ∉ (keptOf selected segments).flatten →
    projected selected (path, utf8 text) segments =
      (path, utf8 (keptOf selected segments).flatten)
  clean : containsProfileMarker (projected selected (path, utf8 text) segments).2 = false
  /-- A smaller selection leaves some of the lines. -/
  fewer : ∀ less : Text → Bool, (∀ profile, less profile = true → selected profile = true) →
    ∃ some' all, projected less (path, utf8 text) segments = (path, utf8 some') ∧
      projected selected (path, utf8 text) segments = (path, utf8 all) ∧
      (splitlines some').Sublist (splitlines all)

theorem selected_of_cut (h : isReplayPatch path = false) (hcut : Cut (path, utf8 text) segments) :
    Selected selected path text segments := by
  have hshaped := cut_utf8 h hcut
  refine ⟨hshaped.lines, fun hkeys => by simp [projected, hkeys], ?_, ?_, ?_⟩
  · intro hreturn
    rcases hempty : (keysOf path segments).isEmpty with _ | _
    · have hsame : (keptOf selected segments).map universal = keptOf selected segments := by
        conv_rhs => rw [← List.map_id (keptOf selected segments)]
        apply List.map_congr_left
        intro line hline
        exact universal_of_no_return fun hmem => hreturn (List.mem_flatten.mpr ⟨line, hline, hmem⟩)
      simp [projected, hempty, hsame]
    · have hkept := kept_of_no_keys selected (List.isEmpty_iff.mp hempty)
      rw [hkept, hshaped.lines, splitlines_flatten]
      simp [projected, hempty]
  · obtain ⟨text', htext, -, hplain⟩ := projected_text selected path hshaped
    rw [htext]
    exact no_marker_left hplain
  · intro less hless
    obtain ⟨some', hsome, hsomeLines, -⟩ := projected_text less path hshaped
    obtain ⟨all, hall, hallLines, -⟩ := projected_text selected path hshaped
    refine ⟨some', all, hsome, hall, ?_⟩
    rw [hsomeLines, hallLines]
    have hmono := kept_mono hless segments
    split
    · exact hmono
    · exact hmono.map universal

def plainCut (file : File) : List Segment := ((rawLines file).getD []).map .plain

theorem plain_keys (relative : Text) (lines : List Text) :
    keysOf relative (lines.map .plain) = [] := by
  simp [keysOf, List.flatMap_map, Segment.keys]

theorem plain_cut (h : ∀ lines, rawLines (path, utf8 text) = some lines →
    ∀ line ∈ lines, carries line = false) : Cut (path, utf8 text) (plainCut (path, utf8 text)) := by
  rw [Cut, plainCut]
  rcases hlines : rawLines (path, utf8 text) with _ | lines
  · rfl
  · refine ⟨?_, ?_⟩
    · rw [Option.getD_some, List.flatMap_map]
      simp [Segment.lines]
    · intro segment hsegment
      obtain ⟨line, hline, rfl⟩ := List.mem_map.mp hsegment
      exact h lines hlines line hline

theorem plain_cut_projected (hcut : Cut (path, utf8 text) segments) :
    Cut (projected selected (path, utf8 text) segments)
      (plainCut (projected selected (path, utf8 text) segments)) := by
  by_cases hreplay : isReplayPatch path = true
  · have hsegments : segments = [] := by
      simpa [Cut, rawLines, hreplay] using hcut
    subst hsegments
    rw [projected_nil]
    apply plain_cut
    simp [rawLines, hreplay]
  · rw [Bool.not_eq_true] at hreplay
    obtain ⟨text', htext, -, hplain⟩ :=
      projected_text selected path (cut_utf8 hreplay hcut)
    rw [htext]
    apply plain_cut
    intro lines hlines
    rw [raw_lines_utf8 hreplay] at hlines
    cases hlines
    exact hplain

theorem plain_well_marked {files : List File} (h : ∀ file ∈ files, Cut file (plainCut file)) :
    WellMarked [] files (files.map plainCut) := by
  have hkeys : allKeys files (files.map plainCut) = [] := by
    rw [allKeys, List.zipWith_map_right, List.zipWith_self, List.flatten_eq_nil_iff]
    intro keys hmem
    obtain ⟨file, -, rfl⟩ := List.mem_map.mp hmem
    exact plain_keys _ _
  refine ⟨?_, by rw [hkeys]; exact List.nodup_nil, by simp [hkeys]⟩
  rw [List.forall₂_map_right_iff, List.forall₂_same]
  exact h

theorem plain_projected (file : File) : projected selected file (plainCut file) = file := by
  simp [projected, plainCut, plain_keys]

end Selection

def encoded (files : List (Text × Text)) : List File := files.map fun file => (file.1, utf8 file.2)

/-- The markers select exactly the marked regions of the files that are read. -/
theorem markers_select_regions (expected : List Key) (files : List (Text × Text)) :
    (∀ selected, (∃ out, applyMarkers expected selected (encoded files) = .ok out) ↔
      ∃ marks, WellMarked expected (encoded files) marks) ∧
    (∀ marks, WellMarked expected (encoded files) marks → ∀ selected,
      let out := List.zipWith (projected selected) (encoded files) marks
      applyMarkers expected selected (encoded files) = .ok out ∧
      ∀ again, applyMarkers [] again out = .ok out) ∧
    (∀ path text segments, Cut (path, utf8 text) segments → ∀ selected,
      if isReplayPatch path then projected selected (path, utf8 text) segments = (path, utf8 text)
      else Selected selected path text segments) ∧
    ∀ text : Text,
      (containsProfileMarker (utf8 text) = true ↔
        ∃ before line after, splitlines text = before ++ line :: after ∧
          (before = [] ∨ ∃ init, before.flatten = init ++ ['\n']) ∧ prefixed line = true) ∧
      (containsProfileMarker (utf8 text) = true →
        ∃ line ∈ splitlines text, carries line = true) ∧
      ((∀ c ∈ text, isBoundary c = true → c = '\n') →
        (containsProfileMarker (utf8 text) = true ↔
          ∃ line ∈ splitlines text, carries line = true)) := by
  refine ⟨fun selected => ?_, fun marks hmarks selected => ?_, ?_, fun text => ?_⟩
  · constructor
    · rintro ⟨out, hout⟩
      obtain ⟨marks, hmarks, -⟩ := apply_markers_ok.mp hout
      exact ⟨marks, hmarks⟩
    · rintro ⟨marks, hmarks⟩
      exact ⟨_, apply_markers_ok.mpr ⟨marks, hmarks, rfl⟩⟩
  · refine ⟨apply_markers_ok.mpr ⟨marks, hmarks, rfl⟩, fun again => ?_⟩
    have hcuts : ∀ out ∈ List.zipWith (projected selected) (encoded files) marks,
        Cut out (plainCut out) := by
      intro out hout
      rw [← List.map_uncurry_zip_eq_zipWith] at hout
      obtain ⟨⟨file, segments⟩, hpair, rfl⟩ := List.mem_map.mp hout
      obtain ⟨⟨path, text⟩, -, rfl⟩ := List.mem_map.mp (List.of_mem_zip hpair).1
      exact plain_cut_projected (List.forall₂_zip hmarks.cut hpair)
    refine apply_markers_ok.mpr ⟨_, plain_well_marked hcuts, ?_⟩
    rw [List.zipWith_map_right, List.zipWith_self]
    simp [plain_projected]
  · intro path text segments hcut selected
    split
    · next hreplay =>
      have hsegments : segments = [] := by
        simpa [Cut, rawLines, hreplay] using hcut
      rw [hsegments, projected_nil]
    · next hreplay => exact selected_of_cut (by simpa using hreplay) hcut
  · have hread : (∃ line ∈ splitlines (universal text), prefixed line = true) ↔
        ∃ line ∈ splitlines text, carries line = true := by
      simp [splitlines_universal, carries]
    rw [← hread]
    exact ⟨contains_iff_line text, prefixed_of_contains, contains_iff_prefixed⟩

def replayPatch : File :=
  ("test/fixtures/postgres_sustained/replay/a.patch".toList, utf8 "# template:begin a:b\n".toList)

/-- A recorded patch is accepted as it is, with a marker line that no inventory names. -/
theorem replay_patch_keeps_marker :
    applyMarkers [] (fun _ => false) [replayPatch] = .ok [replayPatch] ∧
      containsProfileMarker replayPatch.2 = true := by
  refine ⟨rfl, by decide⟩

end MarkerSelection
