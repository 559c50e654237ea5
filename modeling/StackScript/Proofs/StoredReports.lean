import Mathlib
import StackScript.Proofs.StoredNotation
import StackScript.Report

/-!
Stored reports read back.

A report is stored as a JSON object. Which texts stand for an object is said apart from any reader: its
members may have white space between their parts, and a character of a string may be written as it is, by
a short escape, or by its code unit. A codec writes an object with a member to a line, which is one of
these texts, and reads all of them. A text that is missing is written as a word and not as a string, so
it is not mistaken for the empty text.

* `Json.Spells`, `Json.StringText`: the spellings of a character, and strings;
* `Json.ObjectText`: the texts that stand for an object;
* `Json.Codec.Lawful`: what a codec is relied on for;
* `Json.objectText_writeObject`: an object that is written line by line is one of these texts;
* `Json.read?_objectText`, `Json.standardCodec_lawful`: the strict reader takes all of them;
* `report_loads`: a report comes back from its text.
-/

namespace StackScript

namespace Json

/-! ### Objects as text -/

/-- White space. -/
def Blank (cs : List Char) : Prop := ∀ c ∈ cs, isSpace c = true

/-- The letters that stand behind a backslash for a character, and the character. -/
def shortEscapes : List (Char × Char) :=
  [('"', '"'), ('\\', '\\'), ('/', '/'), ('b', Char.ofNat 8), ('f', Char.ofNat 12), ('n', '\n'),
    ('r', '\r'), ('t', '\t')]

/-- A character as it may stand in a string: itself, if it is no control character, or an escape. -/
inductive Spells : List Char → Char → Prop where
  | plain {c : Char} (hmark : c ≠ '"') (hescape : c ≠ '\\') (hcontrol : 0x20 ≤ c.toNat) :
    Spells [c] c
  | short {e c : Char} (h : (e, c) ∈ shortEscapes) : Spells ['\\', e] c
  | codeUnit {a b d e c : Char} {i j k l : Nat} (ha : hexValue? a = some i) (hb : hexValue? b = some j)
    (hd : hexValue? d = some k) (he : hexValue? e = some l)
    (hc : ((i * 16 + j) * 16 + k) * 16 + l = c.toNat) : Spells ['\\', 'u', a, b, d, e] c

/-- A text between its marks. -/
inductive StringText : List Char → String → Prop where
  | intro {cs : List Char} {s : String} (h : Spelled Spells cs s.toList) :
    StringText ('"' :: (cs ++ ['"'])) s

/-- The texts that stand for a value. -/
inductive ScalarText : List Char → Scalar → Prop where
  | null : ScalarText "null".toList .null
  | bool (b : Bool) : ScalarText (if b then "true" else "false").toList (.bool b)
  | text {cs : List Char} {s : String} (h : StringText cs s) : ScalarText cs (.text s)

/-- A name, a colon, and a value, with white space around each. -/
inductive MemberText : List Char → String × Scalar → Prop where
  | intro {before named between value valued after : List Char} {name : String} {v : Scalar}
    (hbefore : Blank before) (hname : StringText named name) (hbetween : Blank between)
    (hvalue : Blank value) (hvalued : ScalarText valued v) (hafter : Blank after) :
    MemberText (before ++ (named ++ (between ++ ':' :: (value ++ (valued ++ after))))) (name, v)

/-- Members with a comma behind each but the last. -/
inductive MembersText : List Char → List (String × Scalar) → Prop where
  | last {cs : List Char} {m : String × Scalar} (h : MemberText cs m) : MembersText cs [m]
  | cons {cs more : List Char} {m : String × Scalar} {ms : List (String × Scalar)}
    (h : MemberText cs m) (hmore : MembersText more ms) : MembersText (cs ++ ',' :: more) (m :: ms)

/-- The texts that stand for an object. -/
inductive ObjectText : List Char → List (String × Scalar) → Prop where
  | empty {blank : List Char} (h : Blank blank) : ObjectText ('\x7b' :: (blank ++ ['\x7d'])) []
  | members {cs : List Char} {ms : List (String × Scalar)} (h : MembersText cs ms) :
    ObjectText ('\x7b' :: (cs ++ ['\x7d'])) ms

/-- The datum that an object is. -/
def objectDatum (members : List (String × Scalar)) : Json :=
  .object (members.map fun m => (some m.1, m.2.datum))

/-- What a codec is relied on for: objects are written with a member to a line, and every text that
stands for an object is read. -/
structure Codec.Lawful (codec : Codec) : Prop where
  writes : ∀ members, codec.write members = some (writeObject members)
  reads : ∀ {text : String} {members : List (String × Scalar)}, ObjectText text.toList members →
    codec.read text = some (objectDatum members)

/-! ### Written objects -/

/-- Every character is written as it may stand in a string. -/
theorem spells_writeChar (c : Char) : Spells (writeChar c) c := by
  rw [writeChar]
  -- the short escapes, the other control characters, and last the character itself
  split_ifs with hmark hescape hline hreturn htab hback hfeed hcontrol
  · subst hmark
    exact .short (by decide)
  · subst hescape
    exact .short (by decide)
  · subst hline
    exact .short (by decide)
  · subst hreturn
    exact .short (by decide)
  · subst htab
    exact .short (by decide)
  · subst hback
    exact .short (by decide)
  · subst hfeed
    exact .short (by decide)
  · have hzero : hexValue? '0' = some 0 := rfl
    exact .codeUnit hzero hzero (hexValue?_hexDigit _ (by omega)) (hexValue?_hexDigit _ (by omega))
      (by omega)
  · exact .plain hmark hescape (by omega)

theorem stringText_writeString (s : String) : StringText (writeString s).toList s := by
  rw [writeString, String.toList_ofList]
  exact .intro (spelled_flatMap spells_writeChar s.toList)

theorem scalarText_write (v : Scalar) : ScalarText v.write.toList v := by
  cases v with
  | null => exact .null
  | bool b => exact .bool b
  | text s => exact .text (stringText_writeString s)

/-- A member that is written may have a line feed behind it. -/
theorem memberText_writeMember (m : String × Scalar) {after : List Char} (hafter : Blank after) :
    MemberText ((writeMember m).toList ++ after) m := by
  have hbefore : Blank ['\n', ' ', ' '] := by simp [Blank, isSpace]
  have hvalue : Blank [' '] := by simp [Blank, isSpace]
  have hbetween : Blank [] := List.forall_mem_nil _
  have h := MemberText.intro hbefore (stringText_writeString m.1) hbetween hvalue
    (scalarText_write m.2) hafter
  have hspace : "\n  ".toList = ['\n', ' ', ' '] := rfl
  have hcolon : ": ".toList = [':', ' '] := rfl
  simpa [writeMember, hspace, hcolon] using h

theorem membersText_writeMember (m : String × Scalar) (ms : List (String × Scalar)) :
    MembersText ((",".intercalate ((m :: ms).map writeMember)).toList ++ ['\n']) (m :: ms) := by
  have hend : Blank ['\n'] := by simp [Blank, isSpace]
  induction ms generalizing m with
  | nil => simpa using MembersText.last (memberText_writeMember m hend)
  | cons m' ms ih =>
    have hmember := memberText_writeMember m (List.forall_mem_nil _)
    have hcomma : ",".toList = [','] := rfl
    simpa [String.intercalate_cons_cons, hcomma] using MembersText.cons hmember (ih m')

/-- An object that is written line by line stands for the object. -/
theorem objectText_writeObject (members : List (String × Scalar)) :
    ObjectText (writeObject members).toList members := by
  cases members with
  | nil => exact .empty (List.forall_mem_nil _)
  | cons m ms =>
    have hopening : "\x7b".toList = ['\x7b'] := rfl
    have hclosing : "\n\x7d".toList = ['\n', '\x7d'] := rfl
    simpa [writeObject, hopening, hclosing] using ObjectText.members (membersText_writeMember m ms)

/-! ### Strings -/

theorem readStringBody_backslash {bound : Nat} {cs rest : List Char} {c : Char}
    (h : readEscape cs = some (some c, rest)) :
    readStringBody (bound + 1) ('\\' :: cs)
      = (readStringBody bound rest).map fun r => (r.1.map (c :: ·), r.2) := by
  rw [readStringBody, if_neg (by decide), if_pos rfl, h]
  rfl

theorem readEscape_short {e c : Char} (h : (e, c) ∈ shortEscapes) (cs : List Char) :
    readEscape (e :: cs) = some (some c, cs) := by
  simp only [shortEscapes, List.mem_cons, Prod.mk.injEq, List.not_mem_nil, or_false] at h
  obtain ⟨rfl, rfl⟩ | ⟨rfl, rfl⟩ | ⟨rfl, rfl⟩ | ⟨rfl, rfl⟩ | ⟨rfl, rfl⟩ | ⟨rfl, rfl⟩ | ⟨rfl, rfl⟩
    | ⟨rfl, rfl⟩ := h
  all_goals rfl

/-- The code unit of a character is no half of a pair. -/
theorem readCodePoint_of_readUnit {cs rest : List Char} {c : Char}
    (h : readUnit cs = some (c.toNat, rest)) : readCodePoint cs = some (some c, rest) := by
  have hvalid : c.toNat < 0xd800 ∨ 0xdfff < c.toNat ∧ c.toNat < 0x110000 := c.valid
  have hleading : ¬ isLeading c.toNat = true := by
    simp only [isLeading, Bool.and_eq_true, decide_eq_true_eq, not_and]
    omega
  have htrailing : ¬ isTrailing c.toNat = true := by
    simp only [isTrailing, Bool.and_eq_true, decide_eq_true_eq, not_and]
    omega
  rw [readCodePoint, h]
  simp only [if_neg hleading, if_neg htrailing, Char.ofNat_toNat]

/-- A character is read whichever way it is spelled, whatever follows it. -/
theorem readStringBody_spells {piece : List Char} {c : Char} (h : Spells piece c) (bound : Nat)
    (cs : List Char) :
    readStringBody (bound + 1) (piece ++ cs)
      = (readStringBody bound cs).map fun r => (r.1.map (c :: ·), r.2) := by
  cases h with
  | plain hmark hescape hcontrol =>
    rw [List.singleton_append, readStringBody, if_neg hmark, if_neg hescape,
      if_neg (Nat.not_lt.mpr hcontrol)]
  | short h => exact readStringBody_backslash (readEscape_short h cs)
  | @codeUnit a b d e c i j k l ha hb hd he hc =>
    have hunit : readUnit (a :: b :: d :: e :: cs) = some (c.toNat, cs) := by
      simp only [readUnit, ha, hb, hd, he, hc]
    exact readStringBody_backslash (readCodePoint_of_readUnit hunit)

theorem readStringBody_spelled {cs ds : List Char} (h : Spelled Spells cs ds) {bound : Nat}
    (hbound : ds.length < bound) (rest : List Char) :
    readStringBody bound (cs ++ '"' :: rest) = some (some ds, rest) := by
  induction h generalizing bound with
  | nil =>
    obtain ⟨bound, rfl⟩ := Nat.exists_eq_add_of_lt hbound
    rfl
  | @cons piece cs ds c h hrest ih =>
    obtain ⟨bound, rfl⟩ : ∃ k, bound = k + 1 := ⟨bound - 1, by omega⟩
    rw [List.append_assoc, readStringBody_spells h, ih (Nat.lt_of_succ_lt_succ hbound)]
    rfl

theorem Spells.ne_nil {piece : List Char} {c : Char} (h : Spells piece c) : piece ≠ [] := by
  cases h <;> exact List.cons_ne_nil _ _

theorem readString_spelled {cs : List Char} {s : String} (h : Spelled Spells cs s.toList)
    (rest : List Char) : readString (cs ++ '"' :: rest) = some (some s, rest) := by
  have hlength := h.length_le Spells.ne_nil
  have hbound : s.toList.length < (cs ++ '"' :: rest).length + 1 := by
    rw [List.length_append]
    omega
  rw [readString, readStringBody_spelled h hbound rest]
  simp

/-! ### Members -/

theorem Blank.skipSpace {blank : List Char} (h : Blank blank) (cs : List Char) :
    skipSpace (blank ++ cs) = skipSpace cs :=
  List.dropWhile_append_of_pos h

theorem skipSpace_idem (cs : List Char) : skipSpace (skipSpace cs) = skipSpace cs :=
  List.dropWhile_idempotent isSpace cs

/-- White space before a datum is skipped with it. -/
theorem readDatum_blank {blank : List Char} (h : Blank blank) (bound depth : Nat) (cs : List Char) :
    readDatum bound (depth + 1) (blank ++ cs) = readDatum bound (depth + 1) cs := by
  rw [readDatum, readDatum, readOver, readOver, h.skipSpace]

/-- The text of a value is read as its datum, whatever stands behind it. -/
theorem readDatum_scalarText {cs : List Char} {v : Scalar} (h : ScalarText cs v) (bound depth : Nat)
    (rest : List Char) : readDatum bound (depth + 1) (cs ++ rest) = some (v.datum, rest) := by
  cases h with
  | null => rfl
  | bool b => cases b <;> rfl
  | text h =>
    cases h with
    | @intro cs s h =>
      have hstring := readString_spelled h rest
      simp [readDatum, readOver, skipSpace, isSpace, hstring, Scalar.datum]

/-- A member is read up to the white space behind its value. -/
theorem readMember_memberText {cs : List Char} {m : String × Scalar} (h : MemberText cs m)
    (bound depth : Nat) (rest : List Char) :
    ∃ after, Blank after ∧ readMember (readDatum bound (depth + 1)) (cs ++ rest)
      = some ((some m.1, m.2.datum), after ++ rest) := by
  cases h with
  | @intro before named between value valued after name v hbefore hname hbetween hvalue hvalued
      hafter =>
    refine ⟨after, hafter, ?_⟩
    cases hname with
    | @intro named _ hname =>
      have hnamed := readString_spelled hname
        (between ++ ':' :: (value ++ (valued ++ (after ++ rest))))
      have hdatum := readDatum_scalarText hvalued bound depth (after ++ rest)
      rw [← readDatum_blank hvalue] at hdatum
      have hmark : skipSpace ('"' :: (named ++ '"' :: (between
          ++ ':' :: (value ++ (valued ++ (after ++ rest))))))
          = '"' :: (named ++ '"' :: (between ++ ':' :: (value ++ (valued ++ (after ++ rest))))) := rfl
      have hcolon : skipSpace (':' :: (value ++ (valued ++ (after ++ rest))))
          = ':' :: (value ++ (valued ++ (after ++ rest))) := rfl
      simp [readMember, hbefore.skipSpace, hmark, hnamed, hbetween.skipSpace, hcolon, hdatum]

/-- The members are read one after the other, up to the brace that closes them. -/
theorem readMembers_membersText {cs : List Char} {ms : List (String × Scalar)} (h : MembersText cs ms)
    (bound depth : Nat) (rest : List Char) {most : Nat} (hmost : ms.length ≤ most) :
    readMembers (readDatum bound (depth + 1)) most (cs ++ '\x7d' :: rest)
      = some (ms.map fun m => (some m.1, m.2.datum), rest) := by
  induction h generalizing most with
  | last h =>
    obtain ⟨most, rfl⟩ : ∃ k, most = k + 1 := Nat.exists_eq_add_of_le' hmost
    obtain ⟨after, hafter, hmember⟩ := readMember_memberText h bound depth ('\x7d' :: rest)
    have hend : skipSpace (after ++ '\x7d' :: rest) = '\x7d' :: rest := hafter.skipSpace _
    simp [readMembers, hmember, hend]
  | @cons cs more m ms h hmore ih =>
    rw [List.length_cons] at hmost
    obtain ⟨most, rfl⟩ : ∃ k, most = k + 1 := ⟨most - 1, by omega⟩
    obtain ⟨after, hafter, hmember⟩ :=
      readMember_memberText h bound depth (',' :: (more ++ '\x7d' :: rest))
    have hend : skipSpace (after ++ ',' :: (more ++ '\x7d' :: rest))
        = ',' :: (more ++ '\x7d' :: rest) := hafter.skipSpace _
    have hrest := ih (Nat.le_of_succ_le_succ hmost)
    simp [readMembers, hmember, hend, hrest]

theorem MemberText.skipSpace {cs : List Char} {m : String × Scalar} (h : MemberText cs m)
    (rest : List Char) : ∃ more, skipSpace (cs ++ rest) = '"' :: more := by
  cases h with
  | intro hbefore hname =>
    cases hname with
    | intro hname =>
      rw [List.append_assoc, hbefore.skipSpace]
      exact ⟨_, rfl⟩

theorem MembersText.skipSpace {cs : List Char} {ms : List (String × Scalar)} (h : MembersText cs ms)
    (rest : List Char) : ∃ more, skipSpace (cs ++ rest) = '"' :: more := by
  cases h with
  | last h => exact h.skipSpace rest
  | cons h hmore =>
    rw [List.append_assoc]
    exact h.skipSpace _

theorem MembersText.length_le {cs : List Char} {ms : List (String × Scalar)} (h : MembersText cs ms) :
    ms.length ≤ cs.length + 1 := by
  induction h with
  | last h => exact Nat.le_add_left 1 _
  | cons h hmore ih =>
    rw [List.length_cons, List.length_append, List.length_cons]
    omega

theorem readMembers_skipSpace (inner : Reader Json) (most : Nat) (cs : List Char) :
    readMembers inner most (Json.skipSpace cs) = readMembers inner most cs := by
  cases most with
  | zero => rfl
  | succ most => rw [readMembers, readMembers, readMember, readMember, skipSpace_idem]

/-- The strict reader takes every text that stands for an object. -/
theorem read?_objectText {text : String} {members : List (String × Scalar)}
    (h : ObjectText text.toList members) : read? text = some (objectDatum members) := by
  have hdatum : readDatum (text.toList.length + 1) (text.toList.length + 1) text.toList
      = some (objectDatum members, []) := by
    generalize hcs : text.toList = cs at h
    cases h with
    | @empty blank hblank =>
      have hend : skipSpace (blank ++ ['\x7d']) = ['\x7d'] := hblank.skipSpace _
      have hbrace : skipSpace ('\x7b' :: (blank ++ ['\x7d'])) = '\x7b' :: (blank ++ ['\x7d']) := rfl
      simp [readDatum, readOver, hbrace, hend, objectDatum]
    | @members cs _ hmembers =>
      have hbrace : skipSpace ('\x7b' :: (cs ++ ['\x7d'])) = '\x7b' :: (cs ++ ['\x7d']) := rfl
      obtain ⟨more, hmore⟩ := hmembers.skipSpace ['\x7d']
      have hread := readMembers_membersText hmembers (cs.length + 3) (cs.length + 1) []
        (hmembers.length_le.trans (Nat.add_le_add_left (by decide : 1 ≤ 3) _))
      rw [← readMembers_skipSpace, hmore] at hread
      have hlength : ('\x7b' :: (cs ++ ['\x7d'])).length + 1 = cs.length + 3 := by simp
      rw [hlength, readDatum, readOver, hbrace]
      simp only [hmore]
      change Option.map _ (readMembers (readDatum _ (cs.length + 1 + 1)) _ ('"' :: more)) = _
      rw [hread]
      rfl
  rw [read?]
  show (readDatum (text.toList.length + 1) (text.toList.length + 1) text.toList).bind _ = _
  rw [hdatum]
  rfl

/-- The codec of the command line is lawful. -/
theorem standardCodec_lawful : standardCodec.Lawful where
  writes _ := rfl
  reads h := read?_objectText h

end Json

namespace CompileReport

/-! ### Reports -/

theorem optional?_optionalText (text : Option String) :
    optional? (optionalText text).datum = some text := by
  cases text with
  | some s => rfl
  | none => rfl

theorem ofData?_members (r : CompileReport) : ofData? (Json.objectDatum r.members) = some r := by
  have hcode := optional?_optionalText r.objectCode
  have hfailure := optional?_optionalText r.failure
  simp [members, Json.objectDatum, ofData?, required?, missable?, member?, text?, truth?, hcode,
    hfailure]

end CompileReport

/-- A report comes back from its text, whatever its texts are made of and whether they are there or
not. -/
theorem report_loads {codec : Json.Codec} (hcodec : codec.Lawful) (r : CompileReport) :
    ∃ text, r.store codec = some text ∧ CompileReport.load? codec text = some r := by
  have htext := Json.objectText_writeObject r.members
  refine ⟨_, hcodec.writes r.members, ?_⟩
  rw [CompileReport.load?, hcodec.reads htext, Option.bind_some, CompileReport.ofData?_members]

/-- A report with marks, control characters and other characters in its source, an empty listing, and no
error. -/
theorem report_loads_of_marks :
    let r : CompileReport := ⟨"\"\\\x08\x00\x1f\x7f\n\u200b é", some "", true, none⟩
    Json.standardCodec.Lawful ∧ CompileReport.ofJson? r.toJson = some r := by
  intro r
  obtain ⟨text, htext, hload⟩ := report_loads Json.standardCodec_lawful r
  rw [CompileReport.store_standardCodec, Option.some_inj] at htext
  subst htext
  exact ⟨Json.standardCodec_lawful, hload⟩

end StackScript
