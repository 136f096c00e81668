import DynamicOps.Proofs.Json.Atoms

/-!
Decoding JSON texts. Arrays and objects are read as sequences of elements and members, whose
documents are nested at most as deep as the text is long. A text is decoded exactly if it spells a
document, and as that document: what is read was spelled, by induction over the depth, and what is
spelled is read, by induction over the spelling.
-/

namespace DynamicOps.Json

-----------------------------------------------------------------------------------------
-- The decoder
-----------------------------------------------------------------------------------------

/-- The text after the blanks at its front. -/
def skipBlanks (cs : List Char) : List Char :=
  cs.dropWhile isBlank

/-- A document with the blanks around it. -/
def element? (document? : Reader Tree) : Reader Tree := fun cs => do
  let (t, cs) ← document? (skipBlanks cs)
  some (t, skipBlanks cs)

/-- A name, a colon, and a document, with the blanks around them. -/
def member? (document? : Reader Tree) : Reader (String × Tree) := fun cs => do
  let (name, cs) ← string? (skipBlanks cs)
  match skipBlanks cs with
  | ':' :: cs => do
    let (t, cs) ← element? document? cs
    some ((name, t), cs)
  | _ => none

section Sequences

variable {α : Type}

/-- One or more items between commas up to a closing character, at most as many as the bound. -/
def items? (item? : Reader α) (close : Char) : Nat → Reader (List α)
  | 0, _ => none
  | bound + 1, cs => do
    let (x, cs) ← item? cs
    match cs with
    | [] => none
    | c :: cs =>
      if c = close then some ([x], cs)
      else if c = ',' then do
        let (xs, cs) ← items? item? close bound cs
        some (x :: xs, cs)
      else none

/-- Items between commas up to a closing character; without items there may be blanks. -/
def sequence? (item? : Reader α) (close : Char) : Reader (List α) := fun cs =>
  match skipBlanks cs with
  | [] => none
  | c :: rest => if c = close then some ([], rest) else items? item? close cs.length cs

end Sequences

/-- A document whose arrays and objects are nested at most so deep. -/
def document? : Nat → Reader Tree
  | _, '"' :: cs => (string? ('"' :: cs)).map (Prod.map Tree.string id)
  | depth + 1, '[' :: cs =>
    (sequence? (element? (document? depth)) ']' cs).map (Prod.map Tree.array id)
  | depth + 1, '\x7b' :: cs =>
    (sequence? (member? (document? depth)) '\x7d' cs).map (Prod.map Tree.object id)
  | _, cs => atom? cs

/-- The document that a text spells as a whole. -/
def decode? (text : String) : Option Tree :=
  match element? (document? text.toList.length) text.toList with
  | some (t, []) => some t
  | _ => none

-----------------------------------------------------------------------------------------
-- Blanks
-----------------------------------------------------------------------------------------

theorem skipBlanks_append {blanks : List Char} (h : Blank blanks) (rest : List Char)
    : skipBlanks (blanks ++ rest) = skipBlanks rest :=
  List.dropWhile_append_of_pos h

theorem skipBlanks_cons {c : Char} (h : isBlank c = false) (cs : List Char)
    : skipBlanks (c :: cs) = c :: cs :=
  List.dropWhile_cons_of_neg (by rw [h]; exact Bool.false_ne_true)

theorem exists_blanks (cs : List Char)
    : ∃ blanks, Blank blanks ∧ cs = blanks ++ skipBlanks cs :=
  ⟨cs.takeWhile isBlank, List.all_eq_true.mp List.all_takeWhile,
    List.takeWhile_append_dropWhile.symm⟩

-----------------------------------------------------------------------------------------
-- Openings
-----------------------------------------------------------------------------------------

/-- A document may begin with the character. -/
def opensDocument (c : Char) : Bool :=
  !isBlank c && c ≠ ']' && c ≠ '\x7d'

theorem opensDocument_of_isAtomic {c : Char} (h : isAtomic c = true) : opensDocument c = true := by
  have hne {d : Char} (hd : isAtomic d = false) : c ≠ d := by
    rintro rfl
    cases h.symm.trans hd
  have hspace : c ≠ ' ' := hne rfl
  have htab : c ≠ '\t' := hne rfl
  have hfeed : c ≠ '\n' := hne rfl
  have hreturn : c ≠ '\r' := hne rfl
  have hbracket : c ≠ ']' := hne rfl
  have hbrace : c ≠ '\x7d' := hne rfl
  simp [opensDocument, isBlank, hspace, htab, hfeed, hreturn, hbracket, hbrace]

theorem SpellsString.exists_eq_cons {text : List Char} {s : String} (h : SpellsString text s)
    : ∃ tail, text = '"' :: tail := by
  obtain ⟨inner, _, rfl⟩ := h
  exact ⟨_, rfl⟩

theorem Spells.exists_eq_cons {text : List Char} {t : Tree} (h : Spells text t)
    : ∃ c tail, text = c :: tail ∧ opensDocument c = true := by
  cases h with
  | atom h =>
      obtain ⟨c, tail, htext, hc⟩ := h.exists_eq_cons
      exact ⟨c, tail, htext, opensDocument_of_isAtomic hc⟩
  | string h =>
      obtain ⟨tail, htext⟩ := h.exists_eq_cons
      exact ⟨_, tail, htext, rfl⟩
  | emptyArray _ | array _ _ | emptyObject _ | object _ _ => exact ⟨_, _, rfl, rfl⟩

theorem isBlank_of_opensDocument {c : Char} (h : opensDocument c = true) : isBlank c = false := by
  simp only [opensDocument, Bool.and_eq_true, Bool.not_eq_true'] at h
  exact h.1.1

-----------------------------------------------------------------------------------------
-- Sequences
-----------------------------------------------------------------------------------------

section Sequences

variable {α β : Type} {item? : Reader α} {close : Char} {text : β → List Char} {value : β → α}

/-- Items that are read were written between commas, by induction over their number. -/
theorem items?_sound {P : β → Prop}
    (hitem : ∀ {cs x rest}, item? cs = some (x, rest) →
      ∃ b, P b ∧ value b = x ∧ cs = text b ++ rest)
    {bound : Nat} {cs : List Char} {xs : List α} {rest : List Char}
    (h : items? item? close bound cs = some (xs, rest))
    : ∃ bs, bs ≠ [] ∧ (∀ b ∈ bs, P b) ∧ bs.map value = xs
        ∧ cs = [','].intercalate (bs.map text) ++ close :: rest := by
  induction bound generalizing cs xs with
  | zero => cases h
  | succ bound ih =>
      simp only [items?, Option.bind_eq_bind, Option.bind_eq_some_iff] at h
      obtain ⟨⟨x, tail⟩, hx, h⟩ := h
      obtain ⟨b, hb, rfl, rfl⟩ := hitem hx
      cases tail with
      | nil => cases h
      | cons c tail =>
          simp only at h
          split at h
          next hclose =>
            subst hclose
            cases h
            exact ⟨[b], by simp, by simpa using hb, rfl, by simp⟩
          next =>
            split at h
            next hcomma =>
              subst hcomma
              obtain ⟨⟨ys, last⟩, hys, h⟩ := Option.bind_eq_some_iff.mp h
              cases h
              obtain ⟨bs, hne, hbs, rfl, rfl⟩ := ih hys
              refine ⟨b :: bs, List.cons_ne_nil _ _, List.forall_mem_cons.mpr ⟨hb, hbs⟩, rfl, ?_⟩
              rw [List.map_cons, List.intercalate_cons_of_ne_nil (by simpa using hne)]
              simp
            next => cases h

/-- Items between commas are read if each one is read in front of a comma and of the closing
character, by induction over the items.
-/
theorem items?_append (hclose : close ≠ ',') {bs : List β} (hne : bs ≠ [])
    (hitem : ∀ b ∈ bs, ∀ c rest, c = ',' ∨ c = close →
      item? (text b ++ c :: rest) = some (value b, c :: rest))
    {bound : Nat} (hbound : bs.length ≤ bound) (rest : List Char)
    : items? item? close bound ([','].intercalate (bs.map text) ++ close :: rest)
      = some (bs.map value, rest) := by
  induction bs generalizing bound with
  | nil => exact absurd rfl hne
  | cons b bs ih =>
      obtain ⟨hb, hbs⟩ := List.forall_mem_cons.mp hitem
      cases bound with
      | zero => cases hbound
      | succ bound =>
          cases bs with
          | nil =>
              rw [List.map_singleton, List.intercalate_singleton, items?, hb close rest (.inr rfl)]
              simp
          | cons b' bs =>
              have htail := ih (List.cons_ne_nil _ _) hbs (Nat.le_of_succ_le_succ hbound)
              have hhead := hb ','
                ([','].intercalate ((b' :: bs).map text) ++ close :: rest) (.inl rfl)
              rw [List.map_cons, List.intercalate_cons_of_ne_nil (by simp), items?]
              simp only [List.append_assoc, List.cons_append, List.nil_append, hhead,
                Option.bind_eq_bind, Option.bind_some, if_neg hclose.symm, if_true, htail]
              rfl

theorem length_le_intercalate (text : β → List Char) (bs : List β)
    : bs.length ≤ ([','].intercalate (bs.map text)).length + 1 := by
  induction bs with
  | nil => exact Nat.zero_le _
  | cons b bs ih =>
      cases bs with
      | nil => exact Nat.le_add_left _ _
      | cons b' bs =>
          rw [List.map_cons, List.intercalate_cons_of_ne_nil (by simp)]
          simp only [List.length_append, List.length_cons, List.length_nil] at ih ⊢
          omega

theorem length_le_intercalate_of_mem (text : β → List Char) {b : β} {bs : List β} (h : b ∈ bs)
    : (text b).length ≤ ([','].intercalate (bs.map text)).length := by
  induction bs with
  | nil => cases h
  | cons b' bs ih =>
      cases bs with
      | nil => simp [List.mem_singleton.mp h]
      | cons b'' bs =>
          rw [List.map_cons, List.intercalate_cons_of_ne_nil (by simp)]
          simp only [List.length_append]
          rcases List.mem_cons.mp h with rfl | h
          · omega
          · have htail := ih h
            omega

theorem sequence?_empty {blanks : List Char} (h : Blank blanks) (hclose : isBlank close = false)
    (rest : List Char)
    : sequence? item? close (blanks ++ close :: rest) = some ([], rest) := by
  rw [sequence?, skipBlanks_append h, skipBlanks_cons hclose]
  simp

/-- A sequence is either blank or written with items. -/
theorem sequence?_sound {P : β → Prop}
    (hitem : ∀ {cs x rest}, item? cs = some (x, rest) →
      ∃ b, P b ∧ value b = x ∧ cs = text b ++ rest)
    {cs : List Char} {xs : List α} {rest : List Char}
    (h : sequence? item? close cs = some (xs, rest))
    : (∃ blanks, Blank blanks ∧ xs = [] ∧ cs = blanks ++ close :: rest)
      ∨ ∃ bs, bs ≠ [] ∧ (∀ b ∈ bs, P b) ∧ bs.map value = xs
          ∧ cs = [','].intercalate (bs.map text) ++ close :: rest := by
  unfold sequence? at h
  split at h
  next => cases h
  next c tail hskip =>
    split at h
    next hclose =>
      cases h
      subst hclose
      obtain ⟨blanks, hblanks, hcs⟩ := exists_blanks cs
      exact .inl ⟨blanks, hblanks, rfl, hskip ▸ hcs⟩
    next => exact .inr (items?_sound hitem h)

/-- A sequence with items is read if no item begins as its end does. -/
theorem sequence?_append (hclose : close ≠ ',') {bs : List β} (hne : bs ≠ [])
    (hopen : ∀ b ∈ bs, ∀ rest, ∃ c tail, skipBlanks (text b ++ rest) = c :: tail ∧ c ≠ close)
    (hitem : ∀ b ∈ bs, ∀ c rest, c = ',' ∨ c = close →
      item? (text b ++ c :: rest) = some (value b, c :: rest))
    (rest : List Char)
    : sequence? item? close ([','].intercalate (bs.map text) ++ close :: rest)
      = some (bs.map value, rest) := by
  obtain ⟨b, bs', rfl⟩ := List.exists_cons_of_ne_nil hne
  have hfirst : ∃ tail, [','].intercalate ((b :: bs').map text) ++ close :: rest
      = text b ++ tail := by
    cases bs' with
    | nil => exact ⟨close :: rest, by rw [List.map_singleton, List.intercalate_singleton]⟩
    | cons b' bs' =>
        rw [List.map_cons, List.intercalate_cons_of_ne_nil (by simp), List.append_assoc,
          List.append_assoc]
        exact ⟨_, rfl⟩
  obtain ⟨tail, htail⟩ := hfirst
  obtain ⟨c, cs, hskip, hc⟩ := hopen b List.mem_cons_self tail
  have hbound := length_le_intercalate text (b :: bs')
  rw [sequence?, htail, hskip]
  simp only [if_neg hc]
  rw [← htail]
  refine items?_append hclose hne hitem ?_ rest
  simp only [List.length_append, List.length_cons] at hbound ⊢
  omega

end Sequences

-----------------------------------------------------------------------------------------
-- Elements and members
-----------------------------------------------------------------------------------------

/-- The text neither is blank at its front nor continues a word or number. -/
def Ends (rest : List Char) : Prop :=
  ∀ c ∈ rest.head?, isBlank c = false ∧ isAtomic c = false

theorem isAtomic_of_isBlank {c : Char} (h : isBlank c = true) : isAtomic c = false := by
  simp only [isBlank, Bool.or_eq_true, decide_eq_true_eq] at h
  rcases h with ((rfl | rfl) | rfl) | rfl <;> rfl

theorem Ends.skipBlanks_eq {rest : List Char} (h : Ends rest) : skipBlanks rest = rest := by
  cases rest with
  | nil => rfl
  | cons c cs => exact skipBlanks_cons (h c rfl).1 cs

/-- Blanks before the end of an element do not continue a word or number. -/
theorem Ends.isAtomic_head? {blanks rest : List Char} (hblanks : Blank blanks) (h : Ends rest)
    : ∀ c ∈ (blanks ++ rest).head?, isAtomic c = false := by
  cases blanks with
  | nil => exact fun c hc => (h c hc).2
  | cons b blanks =>
      intro c hc
      cases hc
      exact isAtomic_of_isBlank (hblanks b List.mem_cons_self)

variable {document : Reader Tree}

theorem element?_sound
    (hdocument : ∀ {cs t rest}, document cs = some (t, rest) →
      ∃ text, Spells text t ∧ cs = text ++ rest)
    {cs : List Char} {t : Tree} {rest : List Char} (h : element? document cs = some (t, rest))
    : ∃ e : Element, Spells e.text e.tree ∧ e.tree = t ∧ cs = e.padded ++ rest := by
  obtain ⟨⟨t, tail⟩, hread, heq⟩ := Option.bind_eq_some_iff.mp h
  cases heq
  obtain ⟨text, htext, hskip⟩ := hdocument hread
  obtain ⟨before, hbefore, hcs⟩ := exists_blanks cs
  obtain ⟨after, hafter, htail⟩ := exists_blanks tail
  refine ⟨⟨before, text, after, t, hbefore, hafter⟩, htext, rfl, ?_⟩
  rw [hcs, hskip, Element.padded, List.append_assoc, List.append_assoc, ← htail]

theorem Element.skipBlanks_padded {e : Element} (h : Spells e.text e.tree) (rest : List Char)
    : skipBlanks (e.padded ++ rest) = e.text ++ (e.after ++ rest) := by
  obtain ⟨c, tail, htext, hc⟩ := h.exists_eq_cons
  rw [padded, List.append_assoc, List.append_assoc, skipBlanks_append e.blank_before, htext,
    List.cons_append, skipBlanks_cons (isBlank_of_opensDocument hc)]

/-- An element is read in front of its end if its document is. -/
theorem element?_append {e : Element} (hspells : Spells e.text e.tree)
    (hdocument : ∀ rest, (∀ c ∈ rest.head?, isAtomic c = false) →
      document (e.text ++ rest) = some (e.tree, rest))
    {rest : List Char} (hrest : Ends rest)
    : element? document (e.padded ++ rest) = some (e.tree, rest) := by
  have hread := hdocument (e.after ++ rest) (hrest.isAtomic_head? e.blank_after)
  simp only [element?, Element.skipBlanks_padded hspells, hread, Option.bind_eq_bind,
    Option.bind_some, skipBlanks_append e.blank_after, hrest.skipBlanks_eq]

theorem member?_sound
    (hdocument : ∀ {cs t rest}, document cs = some (t, rest) →
      ∃ text, Spells text t ∧ cs = text ++ rest)
    {cs : List Char} {field : String × Tree} {rest : List Char}
    (h : member? document cs = some (field, rest))
    : ∃ m : Member, Spells m.text m.tree ∧ (m.name, m.tree) = field
        ∧ cs = m.padded ++ rest := by
  obtain ⟨⟨name, tail⟩, hname, h⟩ := Option.bind_eq_some_iff.mp h
  simp only at h
  split at h
  next last hcolon =>
    obtain ⟨⟨t, rest⟩, hread, heq⟩ := Option.bind_eq_some_iff.mp h
    cases heq
    obtain ⟨e, he, rfl, rfl⟩ := element?_sound hdocument hread
    obtain ⟨nameText, hnameText, hskip⟩ := string?_sound hname
    obtain ⟨before, hbefore, hcs⟩ := exists_blanks cs
    obtain ⟨after, hafter, htail⟩ := exists_blanks tail
    refine ⟨⟨e, before, nameText, after, name, hbefore, hnameText, hafter⟩, he, rfl, ?_⟩
    rw [hcs, hskip, htail, hcolon]
    simp [Member.padded]
  next => cases h

theorem Member.skipBlanks_padded (m : Member) (rest : List Char)
    : skipBlanks (m.padded ++ rest)
      = m.nameText ++ (m.nameAfter ++ ':' :: (m.toElement.padded ++ rest)) := by
  obtain ⟨tail, htail⟩ := m.spells_name.exists_eq_cons
  simp only [padded, List.append_assoc, List.cons_append, skipBlanks_append m.blank_nameBefore]
  rw [htail, List.cons_append, skipBlanks_cons rfl]

theorem member?_append {m : Member} (hspells : Spells m.text m.tree)
    (hdocument : ∀ rest, (∀ c ∈ rest.head?, isAtomic c = false) →
      document (m.text ++ rest) = some (m.tree, rest))
    {rest : List Char} (hrest : Ends rest)
    : member? document (m.padded ++ rest) = some ((m.name, m.tree), rest) := by
  have hcolon : skipBlanks (m.nameAfter ++ ':' :: (m.toElement.padded ++ rest))
      = ':' :: (m.toElement.padded ++ rest) := by
    rw [skipBlanks_append m.blank_nameAfter, skipBlanks_cons rfl]
  have hread := element?_append (e := m.toElement) hspells hdocument hrest
  simp only [member?, m.skipBlanks_padded, string?_append m.spells_name, hcolon, hread,
    Option.bind_eq_bind, Option.bind_some]

-----------------------------------------------------------------------------------------
-- Documents
-----------------------------------------------------------------------------------------

/-- A document that is read was spelled, by induction over the depth. -/
theorem document?_sound {depth : Nat} {cs rest : List Char} {t : Tree}
    (h : document? depth cs = some (t, rest))
    : ∃ text, Spells text t ∧ cs = text ++ rest := by
  induction depth using Nat.strongRecOn generalizing cs t rest with
  | ind depth ih =>
      unfold document? at h
      split at h
      next =>
        obtain ⟨⟨s, rest⟩, hread, heq⟩ := Option.map_eq_some_iff.mp h
        cases heq
        obtain ⟨text, htext, hcs⟩ := string?_sound hread
        exact ⟨text, .string htext, hcs⟩
      next depth _ =>
        obtain ⟨⟨ts, rest⟩, hread, heq⟩ := Option.map_eq_some_iff.mp h
        cases heq
        rcases sequence?_sound (element?_sound (ih depth (Nat.lt_succ_self depth))) hread with
          ⟨blanks, hblanks, rfl, rfl⟩ | ⟨elements, hne, hspells, rfl, rfl⟩
        · exact ⟨_, .emptyArray hblanks, by simp⟩
        · exact ⟨_, .array hne hspells, by simp⟩
      next depth _ =>
        obtain ⟨⟨fields, rest⟩, hread, heq⟩ := Option.map_eq_some_iff.mp h
        cases heq
        rcases sequence?_sound (member?_sound (ih depth (Nat.lt_succ_self depth))) hread with
          ⟨blanks, hblanks, rfl, rfl⟩ | ⟨members, hne, hspells, rfl, rfl⟩
        · exact ⟨_, .emptyObject hblanks, by simp⟩
        · exact ⟨_, .object hne hspells, by simp⟩
      next =>
        obtain ⟨text, htext, hcs⟩ := atom?_sound h
        exact ⟨text, .atom htext, hcs⟩

/-- The elements of an array are read if their documents are. -/
theorem sequence?_elements {elements : List Element} (hne : elements ≠ [])
    (hspells : ∀ e ∈ elements, Spells e.text e.tree)
    (hdocument : ∀ e ∈ elements, ∀ rest, (∀ c ∈ rest.head?, isAtomic c = false) →
      document (e.text ++ rest) = some (e.tree, rest))
    (rest : List Char)
    : sequence? (element? document) ']'
        ([','].intercalate (elements.map Element.padded) ++ ']' :: rest)
      = some (elements.map Element.tree, rest) := by
  refine sequence?_append (by decide) hne (fun e he rest => ?_) (fun e he c rest hc => ?_) rest
  · obtain ⟨c, tail, htext, hc⟩ := (hspells e he).exists_eq_cons
    refine ⟨c, tail ++ (e.after ++ rest), ?_, ?_⟩
    · rw [Element.skipBlanks_padded (hspells e he), htext, List.cons_append]
    · rintro rfl
      cases hc
  · refine element?_append (hspells e he) (hdocument e he) ?_
    rcases hc with rfl | rfl <;> rintro _ ⟨⟩ <;> exact ⟨rfl, rfl⟩

/-- The members of an object are read if their documents are. -/
theorem sequence?_members {members : List Member} (hne : members ≠ [])
    (hspells : ∀ m ∈ members, Spells m.text m.tree)
    (hdocument : ∀ m ∈ members, ∀ rest, (∀ c ∈ rest.head?, isAtomic c = false) →
      document (m.text ++ rest) = some (m.tree, rest))
    (rest : List Char)
    : sequence? (member? document) '\x7d'
        ([','].intercalate (members.map Member.padded) ++ '\x7d' :: rest)
      = some (members.map fun m => (m.name, m.tree), rest) := by
  refine sequence?_append (by decide) hne (fun m hm rest => ?_) (fun m hm c rest hc => ?_) rest
  · obtain ⟨tail, htext⟩ := m.spells_name.exists_eq_cons
    refine ⟨'"', tail ++ (m.nameAfter ++ ':' :: (m.toElement.padded ++ rest)), ?_, by decide⟩
    rw [m.skipBlanks_padded, htext, List.cons_append]
  · refine member?_append (hspells m hm) (hdocument m hm) ?_
    rcases hc with rfl | rfl <;> rintro _ ⟨⟩ <;> exact ⟨rfl, rfl⟩

theorem document?_array {depth : Nat} {inner rest : List Char} {ts : List Tree}
    (h : sequence? (element? (document? depth)) ']' (inner ++ ']' :: rest) = some (ts, rest))
    : document? (depth + 1) ('[' :: (inner ++ [']']) ++ rest) = some (.array ts, rest) := by
  simp only [List.cons_append, List.append_assoc, List.nil_append, document?, h]
  rfl

theorem document?_object {depth : Nat} {inner rest : List Char} {fields : List (String × Tree)}
    (h : sequence? (member? (document? depth)) '\x7d' (inner ++ '\x7d' :: rest)
      = some (fields, rest))
    : document? (depth + 1) ('\x7b' :: (inner ++ ['\x7d']) ++ rest)
      = some (.object fields, rest) := by
  simp only [List.cons_append, List.append_assoc, List.nil_append, document?, h]
  rfl

/-- A spelled document is read in front of any text that does not continue its last word or
number, by induction over the spelling: what is spelled inside of it is shorter.
-/
theorem document?_append {text : List Char} {t : Tree} (h : Spells text t) {depth : Nat}
    (hdepth : text.length ≤ depth) {rest : List Char}
    (hrest : ∀ c ∈ rest.head?, isAtomic c = false)
    : document? depth (text ++ rest) = some (t, rest) := by
  induction h generalizing depth rest with
  | atom h =>
      obtain ⟨c, tail, htext, hc⟩ := h.exists_eq_cons
      have hread := atom?_append h hrest
      rw [htext] at hread ⊢
      unfold document?
      split
      -- No string, array, or object begins as a word or number does.
      iterate 3
        next heq =>
          cases heq
          cases hc
      next => exact hread
  | string h =>
      obtain ⟨tail, htext⟩ := h.exists_eq_cons
      have hread := string?_append h rest
      rw [htext, List.cons_append] at hread ⊢
      simp only [document?, hread]
      rfl
  | emptyArray h =>
      obtain _ | depth := depth
      · cases hdepth
      · exact document?_array (sequence?_empty h rfl rest)
  | emptyObject h =>
      obtain _ | depth := depth
      · cases hdepth
      · exact document?_object (sequence?_empty h rfl rest)
  | @array elements hne h ih =>
      obtain _ | depth := depth
      · cases hdepth
      · refine document?_array (sequence?_elements hne h (fun e he rest hrest => ?_) rest)
        have hlength := length_le_intercalate_of_mem Element.padded he
        refine ih e he ?_ hrest
        simp only [Element.padded, List.length_cons, List.length_append] at hdepth hlength
        omega
  | @object members hne h ih =>
      obtain _ | depth := depth
      · cases hdepth
      · refine document?_object (sequence?_members hne h (fun m hm rest hrest => ?_) rest)
        have hlength := length_le_intercalate_of_mem Member.padded hm
        refine ih m hm ?_ hrest
        simp only [Member.padded, Element.padded, List.length_cons, List.length_append]
          at hdepth hlength
        omega

/-- A text is decoded exactly if it spells a document, and as this document. -/
theorem decode?_eq_some_iff {text : String} {t : Tree}
    : decode? text = some t ↔ IsDocument text.toList t := by
  unfold decode?
  constructor
  · intro h
    split at h
    next t hread =>
      cases h
      obtain ⟨e, he, rfl, htext⟩ := element?_sound document?_sound hread
      exact ⟨e, by rw [htext, List.append_nil], rfl, he⟩
    next => cases h
  · rintro ⟨e, htext, rfl, he⟩
    have hlength : e.text.length ≤ text.toList.length := by
      simp only [← htext, Element.padded, List.length_append]
      omega
    have hends : Ends [] := by
      rintro _ ⟨⟩
    have hread := element?_append he (fun rest => document?_append he hlength) hends
    rw [List.append_nil, htext] at hread
    rw [hread]

end DynamicOps.Json
