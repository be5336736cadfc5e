import Phrasebook.Proofs.Template.Outline
import Phrasebook.Proofs.Template.Written

/-!
Templates, read back from their texts. Every item is a list of pieces, each cut off in front of any
rest that its neighbours allow (`Items.turns`), and taking the pieces of an item adds its statement to
the outline (`Items.run`). `load_text` puts the two together.
-/

namespace Phrasebook.Template.Grammar

/-! ### Tags -/

theorem splitElse?_none {c : Char} (solid : Text.isBlank c = false) (notElse : c ≠ 'e') (rest : Text) :
    splitElse? (c :: rest) = none := by
  have head : (c :: rest).dropWhile Text.isBlank = c :: rest := by simp [solid]
  unfold splitElse?
  simp only [head]
  split
  · next same => exact absurd (List.cons.inj same).1 notElse
  · rfl

theorem Invocation.startsCall (call : Invocation) : StartsCall call.text := by
  obtain ⟨⟨root, first, more⟩, arguments⟩ := call
  cases root with
  | data => exact ⟨⟨'@', _, rfl, .inr (.inl rfl)⟩, fun _ => splitElse?_none (by decide) (by decide) _⟩
  | up steps =>
    cases steps with
    | succ steps => exact ⟨⟨'.', _, rfl, .inr (.inr rfl)⟩, fun _ => splitElse?_none (by decide) (by decide) _⟩
    | zero =>
      have whole : Invocation.text ⟨⟨.up 0, first, more⟩, arguments⟩ =
          first.text ++ (dotted more ++ arguments.text) := by
        simp [Invocation.text, Reference.text, Root.text]
      rw [whole]
      apply startsCall_name first.isName
      cases more with
      | cons name more => rfl
      | nil =>
        cases arguments with
        | param first rest => rfl
        | named pairs => cases pairs <;> rfl

theorem Invocation.passes {closer : Closer} (bare : closer.Bare) (call : Invocation) :
    closer.Passes call.text :=
  (call.callee.passes bare).append (Arguments.passes bare call.arguments)

theorem paramsText_passes {closer : Closer} (bare : closer.Bare) (names : List Name) :
    closer.Passes (paramsText names) := by
  cases names with
  | nil => exact .nil closer
  | cons first more =>
    have later : closer.Passes (spaced more) := by
      induction more with
      | nil => exact .nil closer
      | cons name more ih => exact passes_cons bare (by decide) ((name.passes bare).append ih)
    exact .append (bare.passes_plain (List.all_eq_true.mp (by decide))) ((first.passes bare).append
      (later.append (bare.passes_plain (List.all_eq_true.mp (by decide)))))

/-- The signs that announce a kind of tag here. -/
def signs : List Char := ['#', '^', '/', '>']

/-- A tag that starts with a sign. -/
theorem readBefore_signed {c : Char} {kind : TagKind} {inner : Text} (isSign : c ∈ signs)
    (signed : ∀ more, sigil (c :: (inner ++ more)) = (kind, [c], inner ++ more))
    (notInverse : c = '^' → ∀ rest, splitInverse? (inner ++ '}' :: rest) = none)
    (passes : tagCloser.Passes inner) (rest : Text) :
    ReadBefore rest (.tag ⟨kind, ['{', '{', c], inner, ['}', '}']⟩) := by
  obtain ⟨solid, notElse, notComment, notBrace, notTilde⟩ :
      Text.isBlank c = false ∧ c ≠ 'e' ∧ c ≠ '!' ∧ c ≠ '{' ∧ c ≠ '~' := by
    simp only [signs, List.mem_cons, List.not_mem_nil, or_false] at isSign
    rcases isSign with rfl | rfl | rfl | rfl <;> decide
  have cut := passes.cut tagCloser_bare (.inl rfl : tagCloser.Closing ['}', '}']) rest
  have read : readPlainTag ['{', '{'] (c :: (inner ++ ['}', '}'] ++ rest)) =
      .ok ⟨⟨kind, ['{', '{', c], inner, ['}', '}']⟩, rest⟩ := by
    unfold readPlainTag readExpressionTag
    rw [splitElse?_none solid notElse, List.append_assoc, signed]
    simp only
    rw [cut]
    rfl
  show readTag (c :: (inner ++ ['}', '}'] ++ rest)) = _
  rw [readTag_plain (fun _ same => notBrace (List.cons.inj same).1)
    (fun _ same => notTilde (List.cons.inj same).1)]
  by_cases caret : c = '^'
  · have noInverse := notInverse caret ('}' :: rest)
    subst caret
    rw [readOpened_caret, read]
    rw [List.append_assoc]
    exact noInverse
  · rw [readOpened_plain notComment notBrace caret, read]

/-- An else tag, with or without a call. -/
theorem readBefore_else {inner : Text}
    (isInner : inner = [] ∨ ∃ c more, inner = c :: more ∧ Text.isBlank c = true)
    (passes : tagCloser.Passes inner) (rest : Text) :
    ReadBefore rest (.tag ⟨.stop .elseTag, '{' :: '{' :: elseWord, inner, ['}', '}']⟩) := by
  have cut := passes.cut tagCloser_bare (.inl rfl : tagCloser.Closing ['}', '}']) rest
  obtain ⟨behind, same⟩ : ∃ behind, behind = inner ++ (['}', '}'] ++ rest) := ⟨_, rfl⟩
  have ended : endsElse behind = true := by
    rw [same]
    rcases isInner with rfl | ⟨c, more, rfl, blank⟩
    · simp [endsElse, tagCloser, Closer.match?, Text.startsWith, List.isPrefixOf]
    · simp [endsElse, blank]
  have split : splitElse? ('e' :: 'l' :: 's' :: 'e' :: behind) = some (elseWord, behind) := by
    have solid : Text.isBlank 'e' = false := by decide
    simp [splitElse?, elseWord, solid, ended]
  have whole : (Tag.text ⟨.stop .elseTag, '{' :: '{' :: elseWord, inner, ['}', '}']⟩ ++ rest).drop 2 =
      'e' :: 'l' :: 's' :: 'e' :: behind := by
    simp [Tag.text, elseWord, same]
  show readTag ((Tag.text _ ++ rest).drop 2) = _
  rw [whole, readTag_plain (by simp) (by simp), readOpened_plain (by decide) (by decide) (by decide)]
  unfold readPlainTag readExpressionTag
  simp only [split]
  rw [same, cut]
  rfl

/-- A tag with three braces. -/
theorem readBefore_triple {inner : Text} (starts : ∀ more, inner ≠ '{' :: more)
    (filled : inner ≠ []) (passes : tripleCloser.Passes inner) (rest : Text) :
    ReadBefore rest (.tag ⟨.unescaped, ['{', '{', '{'], inner, ['}', '}', '}']⟩) := by
  have cut := passes.cut ⟨rfl, by decide⟩ (.inl rfl : tripleCloser.Closing ['}', '}', '}']) rest
  obtain ⟨c, more, rfl⟩ := List.exists_cons_of_ne_nil filled
  show readTag ('{' :: (c :: more ++ ['}', '}', '}'] ++ rest)) = _
  rw [readTag_plain ?_ (by simp)]
  · unfold readOpened readExpressionTag
    rw [List.append_assoc]
    simp only
    rw [cut]
    rfl
  · intro rest' same
    have isBrace : c = '{' := by simpa using (List.cons.inj (List.cons.inj same).2).1
    exact starts more (by rw [isBrace])

/-- Dashes that no other dashes stand before. -/
theorem dashCloser_cut {body : Text} (noDashes : ¬['-', '-'] <:+: body) (rest : Text) :
    dashCloser.cut? (body ++ ' ' :: '-' :: '-' :: '}' :: '}' :: rest) =
      some ⟨body ++ [' '], ['-', '-', '}', '}'], rest⟩ := by
  induction body with
  | nil =>
    have found : dashCloser.cut? ('-' :: '-' :: '}' :: '}' :: rest) = some ⟨[], ['-', '-', '}', '}'], rest⟩ :=
      @Closer.cut?_here dashCloser ['-', '-', '}', '}'] (.inl rfl) (by decide) rest
    have here : dashCloser.match? (' ' :: '-' :: '-' :: '}' :: '}' :: rest) = none := by
      simp [Closer.match?, dashCloser, Text.startsWith, List.isPrefixOf]
    rw [List.nil_append, Closer.cut?, here, found]
    rfl
  | cons c body ih =>
    rw [List.infix_cons_iff, not_or] at noDashes
    have here : dashCloser.match? (c :: (body ++ ' ' :: '-' :: '-' :: '}' :: '}' :: rest)) = none := by
      have two : ¬['-', '-'] <+: c :: (body ++ ' ' :: '-' :: '-' :: '}' :: '}' :: rest) := by
        intro starts
        rw [List.cons_prefix_cons] at starts
        obtain ⟨rfl, starts⟩ := starts
        cases body with
        | nil => simp at starts
        | cons d body =>
          rw [List.cons_append, List.cons_prefix_cons] at starts
          exact noDashes.1 ⟨body, by rw [← starts.1]; rfl⟩
      have no (more : Text) : Text.startsWith (c :: (body ++ ' ' :: '-' :: '-' :: '}' :: '}' :: rest))
          ('-' :: '-' :: more) = false := by
        rw [← Bool.not_eq_true]
        intro starts
        exact two (List.IsPrefix.trans ⟨more, rfl⟩ (List.isPrefixOf_iff_prefix.mp starts))
      unfold Closer.match? dashCloser
      simp [no]
    rw [List.cons_append, Closer.cut?, here, ih noDashes.2]
    rfl

/-- The text of a comment as it stands in its tag. -/
def commentInner (remark : Remark) : Text := ' ' :: (remark.text ++ [' '])

theorem readBefore_comment (remark : Remark) (rest : Text) :
    ReadBefore rest (.tag ⟨.comment, ['{', '{', '!', '-', '-'], commentInner remark, ['-', '-', '}', '}']⟩) := by
  have noDashes : ¬['-', '-'] <:+: ' ' :: remark.text := by
    rw [List.infix_cons_iff, not_or]
    exact ⟨by simp, remark.noDashes⟩
  have cut := dashCloser_cut noDashes rest
  have whole : (Tag.text ⟨.comment, ['{', '{', '!', '-', '-'], commentInner remark, ['-', '-', '}', '}']⟩ ++
      rest).drop 2 = '!' :: '-' :: '-' :: (' ' :: remark.text ++ ' ' :: '-' :: '-' :: '}' :: '}' :: rest) := by
    simp [Tag.text, commentInner]
  show readTag ((Tag.text _ ++ rest).drop 2) = _
  rw [whole, readTag_plain (by simp) (by simp)]
  unfold readOpened readComment
  simp only
  rw [cut]
  rfl

/-! ### Blanks around the text of a tag -/

theorem strip_solid {text : Text} (solid : ∀ c ∈ text, Text.isBlank c = false) : Text.strip text = text := by
  have kept (text : Text) (solid : ∀ c ∈ text, Text.isBlank c = false) :
      text.dropWhile Text.isBlank = text := by
    cases text with
    | nil => rfl
    | cons c rest => simp [solid c List.mem_cons_self]
  unfold Text.strip Text.stripLeft Text.stripRight
  rw [kept text solid, kept text.reverse fun c member => solid c (List.mem_reverse.mp member),
    List.reverse_reverse]

theorem strip_ne_nil {text : Text} {c : Char} (member : c ∈ text) (solid : Text.isBlank c = false) :
    Text.strip text ≠ [] := by
  obtain ⟨lead, trail, whole, blankLead, blankTrail, -⟩ := Text.strip_parts text
  intro empty
  rw [empty, List.append_nil] at whole
  rw [whole] at member
  rcases List.mem_append.mp member with here | here
  · simp [blankLead c here] at solid
  · simp [blankTrail c here] at solid

theorem strip_spaced {text : Text} (stripped : Text.strip text = text) :
    Text.strip (' ' :: (text ++ [' '])) = text := by
  have blank : Text.isBlank ' ' = true := by decide
  have left : Text.stripLeft text = text := by rw [← stripped, Text.stripLeft_strip]
  have right : Text.stripRight text = text := by
    have both := stripped
    rwa [Text.strip, left] at both
  cases text with
  | nil => decide
  | cons c rest =>
    have solid : Text.isBlank c = false := Text.isBlank_head_stripLeft left
    have front : Text.stripLeft (' ' :: (c :: rest ++ [' '])) = c :: rest ++ [' '] := by
      simp [Text.stripLeft, blank, solid]
    rw [Text.strip, front]
    unfold Text.stripRight at right ⊢
    rw [List.reverse_append, List.reverse_singleton, List.singleton_append, List.dropWhile_cons, if_pos blank,
      right]

/-! ### Pieces -/

/-- A tag with one sign or none. -/
def plainTag (kind : TagKind) (sign inner : Text) : Piece :=
  .tag ⟨kind, '{' :: '{' :: sign, inner, ['}', '}']⟩

def closeTag (callee : Reference) : Piece := plainTag (.stop .close) ['/'] callee.text

mutual

def Item.pieces : Item → List Piece
  | .content prose => [.content prose.text prose.text]
  | .comment remark => [.tag ⟨.comment, ['{', '{', '!', '-', '-'], commentInner remark, ['-', '-', '}', '}']⟩]
  | .mustache true call => [plainTag .mustache [] call.text]
  | .mustache false call => [.tag ⟨.unescaped, ['{', '{', '{'], call.text, ['}', '}', '}']⟩]
  | .partialCall call => [plainTag .partialCall ['>'] (' ' :: call.text)]
  | .block call names body tail =>
    plainTag .block ['#'] (call.text ++ paramsText names) ::
      (body.pieces ++ (tail.pieces ++ [closeTag call.callee]))
  | .inverse call body =>
    plainTag .inverseBlock ['^'] call.text :: (body.pieces ++ [closeTag call.callee])

def Items.pieces : Items → List Piece
  | .nil => []
  | .cons first rest => first.pieces ++ rest.pieces

def Tail.pieces : Tail → List Piece
  | .none => []
  | .otherwise body => plainTag (.stop .elseTag) elseWord [] :: body.pieces
  | .chained call body tail =>
    plainTag (.stop .elseTag) elseWord (' ' :: call.text) :: (body.pieces ++ tail.pieces)

end

theorem plainTag_text (kind : TagKind) (sign inner : Text) :
    (plainTag kind sign inner).text = braced (sign ++ inner) := by
  simp [plainTag, Piece.text, Tag.text, braced]

mutual

theorem Item.textOf_pieces : ∀ item : Item, textOf item.pieces = item.text
  | .content prose => by simp [Item.pieces, Item.text, Piece.text]
  | .comment remark => by simp [Item.pieces, Item.text, Piece.text, Tag.text, commentInner, braced]
  | .mustache true call => by simp [Item.pieces, Item.text, plainTag_text]
  | .mustache false call => by simp [Item.pieces, Item.text, Piece.text, Tag.text, braced]
  | .partialCall call => by simp [Item.pieces, Item.text, plainTag_text]
  | .block call names body tail => by
    simp [Item.pieces, Item.text, plainTag_text, closeTag, textOf_append, Items.textOf_pieces body,
      Tail.textOf_pieces tail]
  | .inverse call body => by
    simp [Item.pieces, Item.text, plainTag_text, closeTag, textOf_append, Items.textOf_pieces body]

theorem Items.textOf_pieces : ∀ items : Items, textOf items.pieces = items.text
  | .nil => by simp [Items.pieces, Items.text]
  | .cons first rest => by
    simp [Items.pieces, Items.text, textOf_append, Item.textOf_pieces first, Items.textOf_pieces rest]

theorem Tail.textOf_pieces : ∀ tail : Tail, textOf tail.pieces = tail.text
  | .none => by simp [Tail.pieces, Tail.text]
  | .otherwise body => by
    simp [Tail.pieces, Tail.text, plainTag_text, elseWord, Items.textOf_pieces body]
  | .chained call body tail => by
    simp [Tail.pieces, Tail.text, plainTag_text, elseWord, textOf_append, Items.textOf_pieces body,
      Tail.textOf_pieces tail]

end

/-! ### Pieces in turn -/

/-- What stands behind items: a tag, or nothing. -/
def Follows (closed : Bool) (behind : List Piece) : Prop :=
  if closed then ∃ more, textOf behind = '{' :: '{' :: more else behind = []

theorem follows_tag (tag : Tag) (more : Text) (opened : tag.opening = '{' :: '{' :: more)
    (behind : List Piece) : Follows true (.tag tag :: behind) := by
  refine ⟨more ++ tag.inner ++ tag.closing ++ textOf behind, ?_⟩
  simp [Piece.text, Tag.text, opened]

theorem follows_plainTag (kind : TagKind) (sign inner : Text) (behind : List Piece) :
    Follows true (plainTag kind sign inner :: behind) := follows_tag _ sign rfl behind

theorem Tail.follows (tail : Tail) {behind : List Piece} (h : Follows true behind) :
    Follows true (tail.pieces ++ behind) := by
  cases tail with
  | none => exact h
  | otherwise body => exact follows_plainTag _ _ _ _
  | chained call body tail => exact follows_plainTag _ _ _ _

/-- Content may stand in front of an item. -/
def Item.AfterContent : Item → Prop
  | .content _ => False
  | _ => True

theorem Item.follows {item : Item} (h : item.AfterContent) (behind : List Piece) :
    Follows true (item.pieces ++ behind) := by
  cases item with
  | content prose => exact h.elim
  | comment remark => exact follows_tag _ _ rfl behind
  | mustache escaped call =>
    cases escaped
    · exact follows_tag _ _ rfl behind
    · exact follows_plainTag _ _ _ _
  | partialCall call => exact follows_plainTag _ _ _ _
  | block call names body tail => exact follows_plainTag _ _ _ _
  | inverse call body => exact follows_plainTag _ _ _ _

/-- Content does not run into what follows it. -/
def Item.EndsBefore (item : Item) (behind : List Piece) : Prop :=
  match item with
  | .content prose => Template.EndsBefore prose.text (textOf behind)
  | _ => True

theorem Prose.endsBefore {prose : Prose} (fits : prose.fitsBeforeTag) {behind : List Piece}
    (follows : Follows true behind) : Template.EndsBefore prose.text (textOf behind) :=
  .inr ⟨fits, follows⟩

theorem Items.Spaced.cons {closed : Bool} {first : Item} {rest : Items}
    (h : (Items.cons first rest).Spaced closed) {behind : List Piece} (follows : Follows closed behind) :
    first.Spaced ∧ rest.Spaced closed ∧ first.EndsBefore (rest.pieces ++ behind) := by
  cases first with
  | content prose =>
    cases rest with
    | nil =>
      refine ⟨trivial, trivial, ?_⟩
      cases closed with
      | true => exact Prose.endsBefore (h rfl) follows
      | false =>
        obtain rfl : behind = [] := follows
        exact .inl rfl
    | cons second rest =>
      have apart : second.AfterContent ∧ prose.fitsBeforeTag ∧ (Items.cons second rest).Spaced closed := by
        cases second with
        | content _ => exact h.elim
        | _ => exact ⟨trivial, h⟩
      have whole : (Items.cons second rest).pieces ++ behind =
          second.pieces ++ (rest.pieces ++ behind) := by
        rw [Items.pieces, List.append_assoc]
      refine ⟨trivial, apart.2.2, ?_⟩
      rw [whole]
      exact Prose.endsBefore apart.2.1 (Item.follows apart.1 _)
  | _ => exact ⟨h.1, h.2, trivial⟩

theorem sigil_block {inner : Text} (starts : StartsPath inner) (more : Text) :
    sigil ('#' :: (inner ++ more)) = (.block, ['#'], inner ++ more) := by
  obtain ⟨c, word, same, -⟩ := id starts
  have notPartial : c ≠ '>' := StartsPath.ne starts same (by decide) (by decide) (by decide)
  have notDecorator : c ≠ '*' := StartsPath.ne starts same (by decide) (by decide) (by decide)
  rw [same]
  unfold sigil
  split <;> simp_all

theorem splitInverse?_path {inner : Text} (starts : StartsPath inner) (rest : Text) :
    splitInverse? (inner ++ rest) = none := by
  obtain ⟨c, word, same, isHead⟩ := id starts
  have notBrace : c ≠ '}' := StartsPath.ne starts same (by decide) (by decide) (by decide)
  have notTilde : c ≠ '~' := StartsPath.ne starts same (by decide) (by decide) (by decide)
  have solid : Text.isBlank c = false := by
    rcases isHead with isChar | rfl | rfl
    · exact isNameChar_blank isChar
    · decide
    · decide
  have front : (c :: (word ++ rest)).dropWhile Text.isBlank = c :: (word ++ rest) := by simp [solid]
  rw [same, List.cons_append, splitInverse?, front, tagCloser_bare.match?_none notBrace notTilde]

theorem StartsPath.append {inner : Text} (h : StartsPath inner) (more : Text) : StartsPath (inner ++ more) := by
  obtain ⟨c, word, same, isHead⟩ := h
  exact ⟨c, word ++ more, by rw [same, List.cons_append], isHead⟩

theorem Invocation.ne_brace (call : Invocation) (more : Text) : call.text ≠ '{' :: more := by
  intro same
  exact call.startsCall.path.ne same (by decide) (by decide) (by decide) rfl

theorem spaced_passes {inner : Text} (passes : tagCloser.Passes inner) : tagCloser.Passes (' ' :: inner) :=
  passes_cons tagCloser_bare (by decide) passes

theorem closeTag_readBefore (callee : Reference) (rest : Text) : ReadBefore rest (closeTag callee) :=
  readBefore_signed (by decide) (fun _ => rfl) (fun same => absurd same (by decide))
    (callee.passes tagCloser_bare) rest

mutual

theorem Item.turns : ∀ (item : Item) {behind : List Piece}, item.Spaced → item.EndsBefore behind →
    ReadInTurn behind → ReadInTurn (item.pieces ++ behind)
  | .content prose, _, _, ends, turns =>
    ⟨⟨prose.filled, readContent_plain prose.plain prose.single ends⟩, turns⟩
  | .comment remark, _, _, _, turns => ⟨readBefore_comment remark _, turns⟩
  | .mustache true call, _, _, _, turns =>
    ⟨readBefore_mustache call.startsCall (call.passes tagCloser_bare) _, turns⟩
  | .mustache false call, _, _, _, turns =>
    ⟨readBefore_triple call.ne_brace (by
      obtain ⟨c, word, same, -⟩ := call.startsCall.path
      simp [same]) (call.passes ⟨rfl, by decide⟩) _, turns⟩
  | .partialCall call, _, _, _, turns =>
    ⟨readBefore_signed (by decide) (fun _ => rfl) (fun same => absurd same (by decide))
      (spaced_passes (call.passes tagCloser_bare)) _, turns⟩
  | .block call names body tail, behind, spaced, _, turns => by
    have opening (rest : Text) : ReadBefore rest (plainTag .block ['#'] (call.text ++ paramsText names)) :=
      readBefore_signed (by decide) (sigil_block (StartsPath.append call.startsCall.path _))
        (fun same => absurd same (by decide))
        ((call.passes tagCloser_bare).append (paramsText_passes tagCloser_bare names)) rest
    have close : ReadInTurn (closeTag call.callee :: behind) := ⟨closeTag_readBefore _ _, turns⟩
    have follows : Follows true (closeTag call.callee :: behind) := follows_plainTag _ _ _ _
    have inner := Items.turns body spaced.1 (tail.follows follows) (Tail.turns tail spaced.2 follows close)
    have whole : (Item.block call names body tail).pieces ++ behind =
        plainTag .block ['#'] (call.text ++ paramsText names) ::
          (body.pieces ++ (tail.pieces ++ closeTag call.callee :: behind)) := by
      simp [Item.pieces]
    rw [whole]
    exact ⟨opening _, inner⟩
  | .inverse call body, behind, spaced, _, turns => by
    have opening (rest : Text) : ReadBefore rest (plainTag .inverseBlock ['^'] call.text) :=
      readBefore_signed (by decide) (fun _ => rfl) (fun _ _ => splitInverse?_path call.startsCall.path _)
        (call.passes tagCloser_bare) rest
    have close : ReadInTurn (closeTag call.callee :: behind) := ⟨closeTag_readBefore _ _, turns⟩
    have inner := Items.turns body spaced (follows_plainTag _ _ _ _) close
    have whole : (Item.inverse call body).pieces ++ behind =
        plainTag .inverseBlock ['^'] call.text :: (body.pieces ++ closeTag call.callee :: behind) := by
      simp [Item.pieces]
    rw [whole]
    exact ⟨opening _, inner⟩

theorem Items.turns : ∀ (items : Items) {closed : Bool} {behind : List Piece}, items.Spaced closed →
    Follows closed behind → ReadInTurn behind → ReadInTurn (items.pieces ++ behind)
  | .nil, _, _, _, _, turns => turns
  | .cons first rest, _, behind, spaced, follows, turns => by
    obtain ⟨here, later, ends⟩ := spaced.cons follows
    rw [Items.pieces, List.append_assoc]
    exact Item.turns first here ends (Items.turns rest later follows turns)

theorem Tail.turns : ∀ (tail : Tail) {behind : List Piece}, tail.Spaced → Follows true behind →
    ReadInTurn behind → ReadInTurn (tail.pieces ++ behind)
  | .none, _, _, _, turns => turns
  | .otherwise body, _, spaced, follows, turns =>
    ⟨readBefore_else (.inl rfl) (.nil tagCloser) _, Items.turns body spaced follows turns⟩
  | .chained call body tail, behind, spaced, follows, turns => by
    have inner := Items.turns body spaced.1 (tail.follows follows) (Tail.turns tail spaced.2 follows turns)
    have whole : (Tail.chained call body tail).pieces ++ behind =
        plainTag (.stop .elseTag) elseWord (' ' :: call.text) :: (body.pieces ++ (tail.pieces ++ behind)) := by
      simp [Tail.pieces]
    rw [whole]
    exact ⟨readBefore_else (.inr ⟨_, _, rfl, by decide⟩) (spaced_passes (call.passes tagCloser_bare)) _, inner⟩

end

/-! ### The outline of the pieces -/

theorem Reference.chars (reference : Reference) : ∀ c ∈ reference.text, Text.isBlank c = false := by
  obtain ⟨root, first, more⟩ := reference
  intro c member
  have solid (name : Name) (here : c ∈ name.text) : Text.isBlank c = false :=
    isNameChar_blank (name.isName.chars c here)
  rcases List.mem_append.mp member with isRoot | member
  · cases root with
    | data =>
      rw [List.mem_singleton.mp isRoot]
      decide
    | up steps =>
      obtain ⟨step, isStep, here⟩ := List.mem_flatten.mp isRoot
      rw [List.eq_of_mem_replicate isStep] at here
      simp only [List.mem_cons, List.not_mem_nil, or_false] at here
      rcases here with rfl | rfl | rfl <;> decide
  · rcases List.mem_append.mp member with isFirst | isMore
    · exact solid first isFirst
    · obtain ⟨name, -, here⟩ := List.mem_flatMap.mp isMore
      rcases List.mem_cons.mp here with rfl | here
      · decide
      · exact solid name here

theorem Invocation.callIn?_params (call : Invocation) (names : List Name) :
    callIn? (call.text ++ paramsText names) true = some (call.call, names.map Name.text) :=
  @Invocation.callIn?_text call names true (.inr rfl) [] (by simp)

theorem Invocation.callIn?_plain (call : Invocation) (allowed : Bool) :
    callIn? call.text allowed = some (call.call, []) := by
  have read := @Invocation.callIn?_text call [] allowed (.inl rfl) [] (by simp)
  rwa [List.nil_append, paramsText, List.append_nil] at read

theorem Invocation.callIn?_spaced (call : Invocation) (allowed : Bool) :
    callIn? (' ' :: call.text) allowed = some (call.call, []) := by
  have read := @Invocation.callIn?_text call [] allowed (.inl rfl) [' ']
    (List.all_eq_true.mp (by decide))
  rwa [List.singleton_append, paramsText, List.append_nil] at read

theorem run_plainTag (outline : Outline) (kind : TagKind) (sign inner : Text) (rest : List Piece) :
    outline.run (plainTag kind sign inner :: rest) =
      (outline.takeTag ⟨kind, '{' :: '{' :: sign, inner, ['}', '}']⟩).bind fun next => next.run rest :=
  Outline.run_cons outline _ rest

theorem extend_statement (outline : Outline) (s : Statement Unit) (rest : List (Statement Unit)) :
    (outline.extend [s]).extend rest = outline.extend (s :: rest) := by
  simp [Outline.extend]

/-- The block that a close tag makes of an open block. -/
theorem run_close {callee : Reference} {block : OpenBlock} {blocks : List OpenBlock}
    {body : List (Statement Unit)} {branches : Program Unit × Option (Program Unit)} {outer : Opening}
    {first : Program Unit} {second : Option (Program Unit)}
    (found : Outline.branches block body = branches)
    (closed : Outline.closeChain block.opening branches.1 branches.2 block.chain = (outer, first, second))
    (named : outer.call.callee.name = callee.text)
    (kind : outer.kind = .block ∨ outer.kind = .inverseBlock) :
    Outline.run ⟨block :: blocks, body⟩ [closeTag callee] =
      some ⟨blocks, block.before ++ [Outline.blockOf outer first second]⟩ := by
  have name := strip_solid callee.chars
  have made : Outline.closed? outer first second = some (Outline.blockOf outer first second) := by
    unfold Outline.closed?
    cases second <;> rcases kind with kind | kind <;> simp only [kind]
  rw [closeTag, run_plainTag]
  simp only [Outline.takeTag, Outline.stopAt, Outline.close, found, closed, name, named, if_true, made]
  rfl

mutual

/-- An item adds its statement. -/
theorem Item.run : ∀ (item : Item) (outline : Outline),
    outline.run item.pieces = some (outline.extend [item.statement])
  | .content prose, _ => rfl
  | .comment remark, outline => by
    have value : Text.strip (commentInner remark) = remark.text := strip_spaced remark.stripped
    rw [Item.pieces, Outline.run_cons, Outline.takeAt, Outline.takeTag]
    simp only [value]
    rfl
  | .mustache true call, outline => by
    rw [Item.pieces, run_plainTag, Outline.takeTag]
    simp only [Outline.addCall, call.callIn?_plain]
    rfl
  | .mustache false call, outline => by
    rw [Item.pieces, Outline.run_cons, Outline.takeAt, Outline.takeTag]
    simp only [Outline.addCall, call.callIn?_plain]
    rfl
  | .partialCall call, outline => by
    rw [Item.pieces, run_plainTag, Outline.takeTag]
    simp only [Outline.addCall, call.callIn?_spaced]
    rfl
  | .block call names body tail, outline => by
    have closed := @Tail.run tail call.callee outline.body [] ⟨.block, call.call, names.map Name.text⟩
      outline.blocks body.statements _ _ _ rfl rfl (.inl rfl)
    rw [Item.pieces, run_plainTag, Outline.takeTag]
    simp only [Outline.openBlock, call.callIn?_params, Option.map_some, Option.bind_some,
      Outline.run_append, Items.run body, Outline.extend, List.nil_append]
    rw [← Outline.run_append, closed]
    rfl
  | .inverse call body, outline => by
    have closed := @run_close call.callee ⟨outline.body, [], ⟨.inverseBlock, call.call, []⟩, none⟩
      outline.blocks body.statements _ _ _ _ rfl rfl rfl (.inr rfl)
    rw [Item.pieces, run_plainTag, Outline.takeTag]
    simp only [Outline.openBlock, call.callIn?_plain, Option.map_some, Option.bind_some,
      Outline.run_append, Items.run body, Outline.extend, List.nil_append]
    rw [closed]
    rfl

theorem Items.run : ∀ (items : Items) (outline : Outline),
    outline.run items.pieces = some (outline.extend items.statements)
  | .nil, outline => by
    simp [Items.pieces, Items.statements, Outline.run, Outline.runAt, Outline.extend]
  | .cons first rest, outline => by
    rw [Items.pieces, Outline.run_append, Item.run first, Option.bind_some, Items.run rest,
      extend_statement, Items.statements]

/-- What follows the first branch of a block completes it, and the blocks that it is chained to. -/
theorem Tail.run : ∀ (tail : Tail) {callee : Reference} {before : List (Statement Unit)}
    {chain : List (Opening × Program Unit)} {opening : Opening} {blocks : List OpenBlock}
    {body : List (Statement Unit)} {outer : Opening} {first : Program Unit}
    {second : Option (Program Unit)},
    Outline.closeChain opening (Outline.firstBranch opening body) tail.branch chain =
      (outer, first, second) →
    outer.call.callee.name = callee.text → outer.kind = .block ∨ outer.kind = .inverseBlock →
    Outline.run ⟨⟨before, chain, opening, none⟩ :: blocks, body⟩ (tail.pieces ++ [closeTag callee]) =
      some ⟨blocks, before ++ [Outline.blockOf outer first second]⟩
  | .none, _, _, _, _, _, _, _, _, _, closed, named, kind => run_close rfl closed named kind
  | .otherwise branch, callee, before, chain, opening, blocks, body, _, _, _, closed, named, kind => by
    have completed := @run_close callee ⟨before, chain, opening, some (Outline.firstBranch opening body)⟩
      blocks branch.statements _ _ _ _ rfl closed named kind
    rw [Tail.pieces, List.cons_append, run_plainTag, Outline.takeTag]
    simp only [Outline.stopAt, Outline.separate]
    rw [if_neg (by decide), Option.bind_some, Outline.run_append, Items.run branch, Option.bind_some]
    simp only [Outline.extend, List.nil_append]
    exact completed
  | .chained call branch tail, callee, before, chain, opening, blocks, body, _, _, _, closed, named, kind => by
    have completed := @Tail.run tail callee before ((opening, Outline.firstBranch opening body) :: chain)
      ⟨.block, call.call, []⟩ blocks branch.statements _ _ _ closed named kind
    have filled : Text.strip (' ' :: call.text) ≠ [] := by
      obtain ⟨c, word, same, isHead⟩ := call.callee.head
      have solid : Text.isBlank c = false := call.callee.chars c (by simp [same])
      exact @strip_ne_nil _ c (by simp [Invocation.text, same]) solid
    rw [Tail.pieces, List.cons_append, run_plainTag, Outline.takeTag]
    simp only [Outline.stopAt, Outline.separate]
    rw [if_pos ⟨trivial, filled⟩, call.callIn?_spaced, Option.map_some, Option.bind_some, List.append_assoc,
      Outline.run_append, Items.run branch, Option.bind_some]
    simp only [Outline.extend, List.nil_append]
    exact completed

end

/-- The text of a template is read as the tree of the template. -/
theorem load_text (source : String) (items : Items) (spaced : items.Spaced false) :
    ∃ template, Template.load source items.text = .ok template ∧ template.program.shape = items.tree := by
  have turns := Items.turns items spaced (rfl : Follows false []) trivial
  rw [List.append_nil] at turns
  refine load_of_outline source turns items.textOf_pieces ?_
  rw [Items.run items]
  simp [Outline.extend, Outline.start, Outline.finish, Items.tree]

/-- A chain of blocks with a number, a string in double quotes and references of each kind, and a brace
at the end. -/
theorem load_text_chain :
    ∃ (items : Items) (template : Template),
      items.text = "a".toList ++ tagged "#if (not ../b @k) x=\"it's\" as |c|" ++ tagged "\x7bc.d\x7d" ++
        tagged "else if -5" ++ tagged "!-- f --" ++ tagged "else" ++ "g".toList ++ tagged "/if" ++
        "\x7b".toList ∧
      items.Spaced false ∧ Template.load "page" items.text = .ok template ∧
      template.program.shape = items.tree := by
  let here (name : Text) (isName : IsName name) (notThis : name ≠ "this".toList) : Reference :=
    ⟨.up 0, ⟨name, isName, notThis⟩, []⟩
  let c : Name := ⟨['c'], by decide, by decide⟩
  let outer : Reference := ⟨.up 1, ⟨['b'], by decide, by decide⟩, []⟩
  let key : Reference := ⟨.data, ⟨['k'], by decide, by decide⟩, []⟩
  let condition : Operand := .sub (here ['n', 'o', 't'] (by decide) (by decide))
    (.param (.reference outer) (.param (.reference key) (.named .none)))
  let named : Pairs := .pair ⟨['x'], by decide, by decide⟩ (.string ⟨['i', 't', '\'', 's'], by decide⟩) .none
  let opening : Invocation := ⟨here ['i', 'f'] (by decide) (by decide), .param condition (.named named)⟩
  let value : Invocation := ⟨⟨.up 0, c, [⟨['d'], by decide, by decide⟩]⟩, .named .none⟩
  let chained : Invocation :=
    ⟨here ['i', 'f'] (by decide) (by decide), .param (.whole ⟨-5, by decide +kernel⟩) (.named .none)⟩
  let remark : Remark := ⟨['f'], by decide, by decide⟩
  let last : Items := .cons (.content ⟨['g'], by decide, by decide, by decide⟩) .nil
  let tail : Tail := .chained chained (.cons (.comment remark) .nil) (.otherwise last)
  let block : Item := .block opening [c] (.cons (.mustache false value) .nil) tail
  let items : Items := .cons (.content ⟨['a'], by decide, by decide, by decide⟩)
    (.cons block (.cons (.content ⟨['{'], by decide, by decide, by decide⟩) .nil))
  have spaced : items.Spaced false := by
    refine ⟨by decide, ⟨?_, ?_⟩, fun brace => absurd brace (by decide)⟩
    · exact ⟨trivial, trivial⟩
    · exact ⟨⟨trivial, trivial⟩, fun _ => by decide⟩
  obtain ⟨template, loaded, shape⟩ := load_text "page" items spaced
  exact ⟨items, template, by decide +kernel, spaced, loaded, shape⟩

end Phrasebook.Template.Grammar
