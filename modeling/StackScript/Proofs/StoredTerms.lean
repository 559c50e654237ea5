import Mathlib
import StackScript.Proofs.StoredParts

/-!
Stored data read back.

The reader of a shape takes every text of the notation that stands for a datum of the shape, whatever
follows it. It is built along the shape, so the proof is an induction on how the datum fits it: lists and
groups take their parts one after the other, each with the reader of its own shape.

* `Opens`: texts that begin like a datum;
* `parts_separated`: parts up to a closing mark;
* `Takes`, `takes_of_fits`: the reader of a shape;
* `standardCodec_lawful`: the codec of the command line is lawful.
-/

namespace StackScript

namespace UnitText

/-! ### The texts of data -/

/-- A text begins with what is neither space, nor an attribute, nor the end of a list or group. -/
def Opens (cs : List Char) : Prop :=
  ∃ c rest, cs = c :: rest ∧ isSpace c = false ∧ c ≠ '/' ∧ c ≠ '#' ∧ c ≠ ']' ∧ c ≠ ')'

theorem Opens.cons {c : Char} (hspace : isSpace c = false) (hmark : c ∉ ['/', '#', ']', ')'])
    (cs : List Char) : Opens (c :: cs) := by
  simp only [List.mem_cons, List.not_mem_nil, or_false, not_or] at hmark
  exact ⟨c, cs, rfl, hspace, hmark⟩

theorem Opens.solid {cs : List Char} (h : Opens cs) : Solid cs := by
  obtain ⟨c, rest, rfl, hspace, hslash, -⟩ := h
  exact .cons rest hspace hslash

theorem Opens.append {cs : List Char} (h : Opens cs) (rest : List Char) : Opens (cs ++ rest) := by
  obtain ⟨c, cs, rfl, hc⟩ := h
  exact ⟨c, cs ++ rest, rfl, hc⟩

theorem opens_of_continuesWord {c : Char} (h : continuesWord c = true) (cs : List Char) :
    Opens (c :: cs) := by
  have hne : ∀ d, continuesWord d = false → c ≠ d := by
    rintro d hd rfl
    rw [hd] at h
    cases h
  refine ⟨c, cs, rfl, ?_, hne _ rfl, hne _ rfl, hne _ rfl, hne _ rfl⟩
  simp [isSpace, hne ' ' rfl, hne '\n' rfl, hne '\t' rfl, hne '\r' rfl]

theorem opens_of_isDigit {d : Char} (h : d.isDigit = true) (cs : List Char) : Opens (d :: cs) :=
  opens_of_continuesWord (by simp [continuesWord, Char.isAlphanum, h]) cs

theorem opens_of_isWord {name : String} (h : isWord name = true) : Opens name.toList := by
  rw [isWord] at h
  split at h
  · next c d cs hname =>
    rw [Bool.and_eq_true, Bool.and_eq_true] at h
    have hc : continuesWord c = true := by
      have := h.1.1
      simp only [opensWord, Bool.or_eq_true] at this
      simp only [continuesWord, Char.isAlphanum, Bool.or_eq_true]
      exact this.imp_left .inl
    rw [hname]
    exact opens_of_continuesWord hc _
  · cases h

theorem opens_toString (n : Nat) : Opens (toString n).toList := by
  rw [Nat.toString_eq_ofList_toDigits, String.toList_ofList]
  have hdigits := allDigits_toDigits n
  obtain ⟨d, ds, hds⟩ := List.exists_cons_of_ne_nil (Nat.toDigits_ne_nil (n := n) (b := 10))
  rw [hds] at hdigits ⊢
  exact opens_of_isDigit (hdigits d List.mem_cons_self) ds

theorem PlainNumeral.opens {text : List Char} (h : PlainNumeral text) : Opens text := by
  cases h with
  | infinite negative => cases negative <;> exact .cons rfl (by decide) _
  | @digits negative whole fraction h =>
    obtain ⟨d, ds, rfl⟩ := List.exists_cons_of_ne_nil h.nonempty
    cases negative with
    | false => exact opens_of_isDigit (h.whole d List.mem_cons_self) _
    | true => exact .cons rfl (by decide) _

theorem opens_named {name : Option String} (h : ∀ n ∈ name, isWord n = true) (cs : List Char) :
    Opens ((name.getD "").toList ++ '(' :: cs) := by
  cases name with
  | none => exact .cons rfl (by decide) _
  | some name => exact (opens_of_isWord (h name rfl)).append _

theorem Denotes.opens {number? : String → Option Float} {text : List Char} {t : Term}
    (h : Denotes number? text t) : Opens text := by
  cases h with
  | natural n => exact opens_toString n
  | number h hx => exact h.opens
  | text h => exact .cons rfl (by decide) _
  | word hname => exact opens_of_isWord hname
  | list h => exact .cons rfl (by decide) _
  | group hname h => exact opens_named hname _
  | record hname h => exact opens_named hname _

/-! ### Parts -/

section Parts

variable {α β : Type} {P : List Char → α → Prop} {part : Reader β} {f : α → β} {close : Char}
  {body : List Char} {as : List α}

theorem Separated.solid (h : Separated P body as) (hopens : ∀ a ∈ as, ∀ text, P text a → Opens text)
    {tail : List Char} (htail : Solid tail) : Solid ((body ++ tail).dropWhile isSpace) := by
  cases h with
  | nil hblank => rwa [hblank.dropWhile htail]
  | last hblank ha =>
    have hsolid := ((hopens _ List.mem_cons_self _ ha).append tail).solid
    rwa [List.append_assoc, hblank.dropWhile hsolid]
  | @cons blank text more a as hblank ha hmore =>
    have hsolid := ((hopens a List.mem_cons_self text ha).append (',' :: more ++ tail)).solid
    rw [List.append_assoc, List.append_assoc, hblank.dropWhile hsolid]
    exact hsolid

theorem Separated.length_le (h : Separated P body as)
    (hopens : ∀ a ∈ as, ∀ text, P text a → Opens text) : as.length ≤ body.length := by
  induction h with
  | nil hblank => exact Nat.zero_le _
  | last hblank ha =>
    obtain ⟨c, rest, rfl, -⟩ := hopens _ List.mem_cons_self _ ha
    rw [List.length_append, List.length_cons, List.length_cons, List.length_nil]
    omega
  | cons hblank ha hmore ih =>
    have := ih fun a h => hopens a (List.mem_cons_of_mem _ h)
    rw [List.length_append, List.length_append, List.length_cons, List.length_cons]
    omega

theorem solid_close (hclose : close = ')' ∨ close = ']') (rest : List Char) :
    Solid (close :: rest) := by
  obtain rfl | rfl := hclose
  · exact .cons rest rfl (by decide)
  · exact .cons rest rfl (by decide)

theorem comma?_close (hclose : close = ')' ∨ close = ']') (rest : List Char) :
    comma? (close :: rest) = some (false, close :: rest) := by
  refine comma?_of_ne rest (solid_close hclose rest) ?_
  obtain rfl | rfl := hclose
  · decide
  · decide

/-- Behind the text of a part the reader is in front of a comma or of the closing mark. -/
theorem partsBelow_part (hclose : close = ')' ∨ close = ']') {text rest : List Char} {b : β}
    (hopens : Opens text) (htext : part (text ++ rest) = some (b, rest)) (bound : Nat) {cs : List Char}
    (hcs : cs.dropWhile isSpace = text ++ rest) :
    partsBelow close part (bound + 1) cs
      = (comma? >>= fun more =>
          if more then (fun bs => b :: bs) <$> partsBelow close part bound
          else (fun _ => [b]) <$> mark close) rest := by
  have hspace := space_of_solid (hopens.append rest).solid hcs
  obtain ⟨c, text, rfl, -, -, -, hbracket, hparenthesis⟩ := hopens
  have hne : close ≠ c := by
    rintro rfl
    obtain h | h := hclose
    · exact hparenthesis h
    · exact hbracket h
  rw [partsBelow, bind_of_eq hspace]
  rw [List.cons_append] at htext ⊢
  rw [bind_of_eq (mark?_of_ne hne _)]
  change (part >>= _) _ = _
  rw [bind_of_eq htext]
  rfl

/-- Parts are taken one after the other, up to the mark that closes them. -/
theorem partsBelow_separated (hclose : close = ')' ∨ close = ']') (h : Separated P body as)
    (hopens : ∀ a ∈ as, ∀ text, P text a → Opens text)
    (htakes : ∀ a ∈ as, ∀ text, P text a → ∀ rest, Stops rest →
      part (text ++ rest) = some (f a, rest))
    {bound : Nat} (hbound : as.length < bound) {cs rest : List Char}
    (hcs : cs.dropWhile isSpace = (body ++ close :: rest).dropWhile isSpace) :
    partsBelow close part bound cs = some (as.map f, rest) := by
  have hend := solid_close hclose rest
  obtain ⟨bound, rfl⟩ : ∃ k, bound = k + 1 := Nat.exists_eq_add_of_le' (Nat.one_le_of_lt hbound)
  -- the reader is always in front of a part, or of the closing mark, but for space
  induction h generalizing bound cs with
  | nil hblank =>
    rw [hblank.dropWhile hend] at hcs
    rw [partsBelow, bind_of_eq (space_of_solid hend hcs), bind_of_eq (mark?_cons _ rest)]
    rfl
  | @last blank text a hblank ha =>
    have htext := hopens a List.mem_cons_self text ha
    rw [List.append_assoc, hblank.dropWhile (htext.append _).solid] at hcs
    rw [partsBelow_part hclose htext
      (htakes a List.mem_cons_self text ha _ (stops_close hclose rest)) bound hcs,
      bind_of_eq (comma?_close hclose rest)]
    exact map_of_eq _ (mark_cons close rest)
  | @cons blank text more a as hblank ha hmore ih =>
    rw [List.forall_mem_cons] at hopens htakes
    have htext := hopens.1 text ha
    have hcomma : comma? (',' :: (more ++ close :: rest))
        = some (true, (more ++ close :: rest).dropWhile isSpace) :=
      comma?_comma (hmore.solid hopens.2 hend) rfl
    obtain ⟨bound, rfl⟩ : ∃ k, bound = k + 1 :=
      Nat.exists_eq_add_of_le' (Nat.one_le_of_lt (Nat.lt_of_succ_lt_succ hbound))
    have hrest := ih hopens.2 htakes.2 (List.dropWhile_idempotent isSpace (more ++ close :: rest))
      bound (Nat.lt_of_succ_lt_succ hbound)
    rw [List.append_assoc, List.append_assoc, hblank.dropWhile (htext.append _).solid,
      List.cons_append] at hcs
    rw [partsBelow_part hclose htext (htakes.1 text ha _ (stops_comma _)) _ hcs, bind_of_eq hcomma]
    exact map_of_eq _ hrest

theorem parts_separated (hclose : close = ')' ∨ close = ']') (h : Separated P body as)
    (hopens : ∀ a ∈ as, ∀ text, P text a → Opens text)
    (htakes : ∀ a ∈ as, ∀ text, P text a → ∀ rest, Stops rest →
      part (text ++ rest) = some (f a, rest)) (rest : List Char) :
    parts close part (body ++ close :: rest) = some (as.map f, rest) := by
  have hlength := h.length_le hopens
  refine partsBelow_separated hclose h hopens htakes ?_ rfl
  rw [List.length_append]
  omega

end Parts

/-! ### Shapes -/

/-- The reader of a shape takes every text that stands for a datum. -/
def Takes (shape : Shape) (t : Term) : Prop :=
  ∀ bareOptions levels {text rest : List Char}, Denotes readNumber? text t → Stops rest →
    datum bareOptions levels shape (text ++ rest) = some (t, rest)

theorem takes_natural {n : Nat} (hn : n < 2 ^ 64) : Takes .natural (.natural n) := by
  intro bareOptions levels text rest h hrest
  cases h
  exact map_of_eq _ (natural_toString hn hrest)

theorem takes_number (x : Float) : Takes .number (.number x) := by
  intro bareOptions levels text rest h hrest
  cases h with
  | number h hx => exact map_of_eq _ (float_of_plain h hx hrest)

theorem takes_text (s : String) : Takes .text (.text s) := by
  intro bareOptions levels text rest h hrest
  cases h with
  | text h =>
    rw [List.cons_append, List.append_assoc]
    exact map_of_eq _ (text_spelled h rest)

theorem takes_list {item : Shape} {items : List Term} (h : ∀ t ∈ items, Takes item t) :
    Takes (.list item) (.list items) := by
  intro bareOptions levels text rest htext hrest
  cases htext with
  | @list body items hbody =>
    have hparts : parts ']' (datum bareOptions (within levels) item) (body ++ ']' :: rest)
        = some (items.map id, rest) :=
      parts_separated (.inr rfl) hbody (fun _ _ _ htext => htext.opens)
        (fun t ht _ htext _ hrest => h t ht bareOptions (within levels) htext hrest) rest
    rw [List.map_id] at hparts
    rw [List.cons_append, List.append_assoc, datum, bind_of_eq (mark_cons _ _)]
    exact bind_of_eq hparts

/-- The last part, the comma that it may have, and the closing parenthesis. -/
theorem exists_lastPart {P : List Char → Term → Prop} (hopens : ∀ text t, P text t → Opens text)
    {body : List Char} {t : Term} (h : Separated P body [t]) (rest : List Char) :
    ∃ text tail there, P text t ∧ (body ++ ')' :: rest).dropWhile isSpace = text ++ tail ∧ Stops tail
      ∧ comma? tail = some (there, ')' :: rest) := by
  have hend : Solid (')' :: rest) := solid_close (.inl rfl) rest
  cases h with
  | @last blank text _ hblank ht =>
    have hsolid := ((hopens text t ht).append (')' :: rest)).solid
    refine ⟨text, ')' :: rest, false, ht, ?_, stops_close (.inl rfl) rest, comma?_close (.inl rfl) rest⟩
    rw [List.append_assoc, hblank.dropWhile hsolid]
  | @cons blank text more _ _ hblank ht hmore =>
    cases hmore with
    | nil hmore =>
      have hsolid := ((hopens text t ht).append (',' :: (more ++ ')' :: rest))).solid
      refine ⟨text, ',' :: (more ++ ')' :: rest), true, ht, ?_, stops_comma _,
        comma?_comma hend (hmore.dropWhile hend)⟩
      rw [List.append_assoc, List.append_assoc, List.cons_append, hblank.dropWhile hsolid]

theorem operand_separated {shape : Shape} {t : Term} (h : Takes shape t) (bareOptions : Bool)
    (levels : Nat) {body : List Char} (hbody : Separated (Denotes readNumber?) body [t])
    (rest : List Char) :
    operand (datum bareOptions levels shape) ('(' :: (body ++ ')' :: rest)) = some (t, rest) := by
  obtain ⟨text, tail, there, ht, hbody, htail, hcomma⟩ :=
    exists_lastPart (fun _ _ h => h.opens) hbody rest
  rw [operand, bind_of_eq (Solid.cons _ rfl (by decide)).space, bind_of_eq (mark_cons _ _),
    bind_of_eq (space_of_solid (ht.opens.append tail).solid hbody),
    bind_of_eq (h bareOptions levels ht htail), bind_of_eq (discard_of_eq hcomma),
    bind_of_eq (mark_cons _ _)]
  rfl

theorem takes_pair {first second : Shape} {a b : Term} (ha : Takes first a) (hb : Takes second b) :
    Takes (.pair first second) (.group none [a, b]) := by
  intro bareOptions levels text rest htext hrest
  cases htext with
  | @group _ body _ _ hbody =>
    cases hbody with
    | @cons blank text more _ _ hblank hfirst hmore =>
      obtain ⟨text', tail, there, ht, hmore, htail, hcomma⟩ :=
        exists_lastPart (fun _ _ h => h.opens) hmore rest
      have hopens := (hfirst.opens.append (',' :: (more ++ ')' :: rest))).solid
      have hsecond := (ht.opens.append tail).solid
      have htext : ((none : Option String).getD "").toList
            ++ '(' :: (blank ++ (text ++ ',' :: more) ++ [')']) ++ rest
          = '(' :: (blank ++ (text ++ ',' :: (more ++ ')' :: rest))) := by
        simp
      rw [htext, datum, pair, bind_of_eq (mark_cons _ _), bind_of_eq (hblank.space hopens),
        bind_of_eq (ha bareOptions (within levels) hfirst (stops_comma _)),
        bind_of_eq (comma?_comma hsecond hmore)]
      change (datum bareOptions (within levels) second >>= _) _ = _
      rw [bind_of_eq (hb bareOptions (within levels) ht htail), bind_of_eq (discard_of_eq hcomma),
        bind_of_eq (mark_cons _ _)]
      rfl

/-! ### Fields -/

/-- A choice by name. -/
theorem eq_of_lookup {α β : Type} {g : List (String × α) → β} {f : α → β} {name : String}
    (hg : ∀ n a as, g ((n, a) :: as) = if n = name then f a else g as) {as : List (String × α)} {a : α}
    (h : as.lookup name = some a) : g as = f a := by
  induction as with
  | nil => cases h
  | cons e as ih =>
    obtain ⟨n, b⟩ := e
    rw [List.lookup_cons] at h
    rw [hg]
    by_cases hname : n = name
    · subst hname
      rw [beq_self_eq_true] at h
      cases h
      exact if_pos rfl
    · rw [beq_eq_false_iff_ne.mpr (Ne.symm hname)] at h
      rw [if_neg hname, ih h]

theorem field_of_lookup (bareOptions : Bool) (levels : Nat) {expected : List (String × Shape)}
    {name : String} {shape : Shape} (h : expected.lookup name = some shape) :
    field bareOptions levels expected name
      = (fun t => some (name, t)) <$> datum bareOptions levels shape :=
  eq_of_lookup (g := fun expected => field bareOptions levels expected name)
    (fun _ _ _ => by rw [field]) h

theorem choose_of_lookup (bareOptions : Bool) (levels : Nat) {cases : List (String × Behind)}
    {name : String} {behind : Behind} (h : cases.lookup name = some behind) :
    choose bareOptions levels cases name
      = following bareOptions (withinNamed levels) name behind :=
  eq_of_lookup (g := fun cases => choose bareOptions levels cases name)
    (fun _ _ _ => by rw [choose]) h

theorem namedPart_of_word {β : Type} {name : String} (hname : isWord name = true)
    {behind : String → Reader β} {blank text rest : List Char} {b : β} (hblank : Blank blank)
    (hopens : Opens text) (htext : behind name (text ++ rest) = some (b, rest)) :
    namedPart behind (name.toList ++ ':' :: (blank ++ text) ++ rest) = some (b, rest) := by
  have hcolon : Breaks continuesRawWord (':' :: (blank ++ text ++ rest)) := by
    rintro _ ⟨⟩
    rfl
  have hspace := hblank.space (hopens.append rest).solid
  rw [List.append_assoc, List.cons_append, namedPart, bind_of_eq (word_of_isWord hname hcolon),
    bind_of_eq (Solid.cons _ rfl (by decide)).space, bind_of_eq (mark_cons _ _), List.append_assoc,
    bind_of_eq hspace, htext]

theorem fieldParts_separated (bareOptions : Bool) (levels : Nat) {expected : List (String × Shape)}
    {fields : List (String × Term)} (hfields : Expected expected fields)
    (h : ∀ f ∈ fields, ∀ shape, expected.lookup f.1 = some shape → Takes shape f.2)
    {body : List Char} (hbody : Separated (NamedText (Denotes readNumber?)) body fields)
    (rest : List Char) :
    fieldParts (field bareOptions levels expected) (body ++ ')' :: rest) = some (fields, rest) := by
  have hparts : parts ')' (namedPart (field bareOptions levels expected)) (body ++ ')' :: rest)
      = some (fields.map some, rest) := by
    refine parts_separated (.inl rfl) hbody ?opens ?takes rest
    case opens =>
      rintro _ _ _ ⟨hname, -, -⟩
      exact (opens_of_isWord hname).append _
    case takes =>
      rintro _ hf _ ⟨hname, hblank, htext⟩ rest hrest
      obtain ⟨shape, hshape⟩ := Option.isSome_iff_exists.mp (hfields _ hf).2
      refine namedPart_of_word hname hblank htext.opens ?_
      rw [field_of_lookup bareOptions levels hshape]
      exact map_of_eq _ (h _ hf shape hshape bareOptions levels htext hrest)
  rw [fieldParts, bind_of_eq hparts, List.filterMap_map, Function.id_comp, List.filterMap_some]
  rfl

theorem recordOpening_parenthesis (name : String) (cs : List Char) :
    recordOpening name ('(' :: cs) = some ((), cs) := by
  change (space >>= fun _ => mark '(') ('(' :: cs) = _
  rw [bind_of_eq (Solid.cons cs rfl (by decide)).space, mark_cons]

theorem takes_record {name : String} {expected : List (String × Shape)}
    {fields : List (String × Term)} (hfields : Expected expected fields)
    (h : ∀ f ∈ fields, ∀ shape, expected.lookup f.1 = some shape → Takes shape f.2) :
    Takes (.record name expected) (.record none fields) := by
  intro bareOptions levels text rest htext hrest
  cases htext with
  | @record _ body _ _ hbody =>
    have htext : ((none : Option String).getD "").toList ++ '(' :: (body ++ [')']) ++ rest
        = '(' :: (body ++ ')' :: rest) := by
      simp
    rw [htext, datum, bind_of_eq (recordOpening_parenthesis name _)]
    exact bind_of_eq (fieldParts_separated bareOptions (within levels) hfields h hbody rest)

/-! ### Words -/

section Words

variable {cases : List (String × Behind)} {name : String} (hname : isWord name = true)

include hname

theorem takes_word (hcase : cases.lookup name = some .nothing) :
    Takes (.choice cases) (.word name) := by
  intro bareOptions levels text rest htext hrest
  cases htext with
  | word _ =>
    rw [datum, bind_of_eq (word_of_isWord hname (hrest.breaks rfl rfl rfl)),
      choose_of_lookup bareOptions levels hcase]
    rfl

/-- Behind a word with a group the reader is in front of the group. -/
theorem choice_named {behind : Behind} (hcase : cases.lookup name = some behind) (bareOptions : Bool)
    (levels : Nat) (body rest : List Char) :
    datum bareOptions levels (.choice cases)
        (((some name).getD "").toList ++ '(' :: (body ++ [')']) ++ rest)
      = following bareOptions (withinNamed levels) name behind ('(' :: (body ++ ')' :: rest)) := by
  have hparenthesis : Breaks continuesRawWord ('(' :: (body ++ ')' :: rest)) := by
    rintro _ ⟨⟩
    rfl
  rw [List.append_assoc, List.cons_append, List.append_assoc, List.singleton_append, datum,
    Option.getD_some, bind_of_eq (word_of_isWord hname hparenthesis),
    choose_of_lookup bareOptions levels hcase]

theorem takes_tagged {shape : Shape} {t : Term} (hcase : cases.lookup name = some (.datum shape))
    (h : Takes shape t) : Takes (.choice cases) (.group (some name) [t]) := by
  intro bareOptions levels text rest htext hrest
  cases htext with
  | group _ hbody =>
    rw [choice_named hname hcase, following]
    exact bind_of_eq (operand_separated h bareOptions (withinNamed levels) hbody rest)

theorem takes_named {expected : List (String × Shape)} {fields : List (String × Term)}
    (hcase : cases.lookup name = some (.fields expected)) (hfields : Expected expected fields)
    (h : ∀ f ∈ fields, ∀ shape, expected.lookup f.1 = some shape → Takes shape f.2) :
    Takes (.choice cases) (.record (some name) fields) := by
  intro bareOptions levels text rest htext hrest
  cases htext with
  | record _ hbody =>
    rw [choice_named hname hcase, following, bind_of_eq (Solid.cons _ rfl (by decide)).space,
      bind_of_eq (mark_cons _ _)]
    exact bind_of_eq
      (fieldParts_separated bareOptions (withinNamed levels) hfields h hbody rest)

end Words

/-- The reader of a shape takes every text that stands for a datum of the shape. -/
theorem takes_of_fits {shape : Shape} {t : Term} (h : Fits shape t) : Takes shape t := by
  induction h with
  | natural h => exact takes_natural h
  | @number x h => exact takes_number x
  | text s => exact takes_text s
  | list h ih => exact takes_list ih
  | pair ha hb iha ihb => exact takes_pair iha ihb
  | record hfields h ih => exact takes_record hfields ih
  | word hname hcase => exact takes_word hname hcase
  | tagged hname hcase h ih => exact takes_tagged hname hcase ih
  | named hname hcase hfields h ih => exact takes_named hname hcase hfields ih

/-! ### Texts -/

/-- No attribute stands before a datum. -/
theorem preamble_of_opens (bound : Nat) {cs : List Char} (h : Opens cs) :
    preamble (bound + 1) cs = some ([], cs) := by
  rw [preamble, bind_of_eq h.solid.space]
  obtain ⟨c, rest, rfl, -, -, hattribute, -⟩ := h
  change (if some c = some '#' then _ else _ : Reader (List String)) (c :: rest) = _
  rw [if_neg fun h => hattribute (Option.some.inj h)]
  rfl

theorem readText?_of_denotes {shape : Shape} {text : String} {t : Term} (h : Fits shape t)
    (htext : Denotes readNumber? text.toList t) : readText? shape text = some t := by
  have hdatum := takes_of_fits h false mostLevels htext stops_nil
  rw [List.append_nil] at hdatum
  have hdocument : document shape text.toList = some (t, []) := by
    have hget : (get : Reader (List Char)) text.toList = some (text.toList, text.toList) := rfl
    rw [document, bind_of_eq hget, bind_of_eq (preamble_of_opens _ htext.opens)]
    change (datum false mostLevels shape >>= _) text.toList = _
    rw [bind_of_eq hdatum]
    rfl
  rw [readText?, hdocument]

/-- The codec of the command line is lawful. -/
theorem standardCodec_lawful : standardCodec.Lawful where
  writes _ _ := rfl
  reads _ h htext := readText?_of_denotes h htext
  numerals {x} hx := by
    have hform := numberForm_write x
    have hread := hform.readNumber?
    refine ⟨?_, x, hread, float_beq_self hx⟩
    change PlainNumeral (storedNumberStyle.write x).toList
    generalize storedNumberStyle.write x = text at hform
    cases hform with
    | nan => cases hx
    | infinite negative => exact .infinite negative
    | digits negative h =>
      rw [String.toList_ofList]
      exact .digits negative h

end UnitText

end StackScript
