import Phrasebook.Proofs.Template.Lexeme
import Phrasebook.Proofs.Text.Lines

/-!
Nested ranges. `Node.Laid` says that a node covers a range of a text in which the nodes below it stand in
order, and that it is written with the characters of this range. The tokens inside of a tag stand one behind
the other, each with the characters of its range.
-/

namespace Phrasebook.Template

/-! ### Ranges in order -/

/-- Ranges that stand one behind the other from `start` up to `stop`. -/
def InTurn (stop : Nat) : Nat → List Extent → Prop
  | start, [] => start ≤ stop
  | start, extent :: rest => start ≤ extent.start ∧ extent.start ≤ extent.stop ∧ InTurn stop extent.stop rest

/-- Two ranges in the order of their starts that have no offset in common. -/
def Staggered (first second : Extent) : Prop :=
  first.start ≤ second.start ∧ (first.stop ≤ second.start ∨ second.start = second.stop)

/-- Ranges in a range, in order. -/
structure Ordered (own : Extent) (below : List Extent) : Prop where
  forward : own.start ≤ own.stop
  inside : ∀ extent ∈ below, own.start ≤ extent.start ∧ extent.start ≤ extent.stop ∧ extent.stop ≤ own.stop
  apart : below.Pairwise Staggered

namespace InTurn

variable {start stop : Nat} {first : List Extent}

theorem le (h : InTurn stop start first) : start ≤ stop := by
  induction first generalizing start with
  | nil => exact h
  | cons extent rest ih => exact Nat.le_trans h.1 (Nat.le_trans h.2.1 (ih h.2.2))

theorem widen (h : InTurn stop start first) {earlier later : Nat} (le : earlier ≤ start) (le' : stop ≤ later) :
    InTurn later earlier first := by
  induction first generalizing earlier start with
  | nil => exact Nat.le_trans le (Nat.le_trans h le')
  | cons extent rest ih => exact ⟨Nat.le_trans le h.1, h.2.1, ih h.2.2 (Nat.le_refl _)⟩

theorem ordered (h : InTurn stop start first) : Ordered ⟨start, stop⟩ first := by
  induction first generalizing start with
  | nil => exact ⟨h, List.forall_mem_nil _, .nil⟩
  | cons extent rest ih =>
    obtain ⟨behind, forward, later⟩ := h
    have tail := ih later
    have reaches := later.le
    refine ⟨Nat.le_trans behind (Nat.le_trans forward reaches), ?_, List.pairwise_cons.mpr ⟨?_, tail.apart⟩⟩
    · rw [List.forall_mem_cons]
      refine ⟨⟨behind, forward, reaches⟩, fun other member => ?_⟩
      obtain ⟨low, up, high⟩ := tail.inside other member
      exact ⟨Nat.le_trans behind (Nat.le_trans forward low), up, high⟩
    · intro other member
      obtain ⟨low, -, -⟩ := tail.inside other member
      exact ⟨Nat.le_trans forward low, .inl low⟩

/-- Ranges in turn reach from the start of the first to the stop of the last. -/
theorem ends {extent : Extent} {rest : List Extent} (h : InTurn stop start (extent :: rest)) :
    InTurn (rest.getLast?.getD extent).stop extent.start (extent :: rest) ∧
      (rest.getLast?.getD extent).stop ≤ stop := by
  obtain ⟨-, forward, later⟩ := h
  induction rest generalizing extent with
  | nil => exact ⟨⟨Nat.le_refl _, forward, Nat.le_refl _⟩, later⟩
  | cons next rest ih =>
    obtain ⟨behind, nextForward, more⟩ := later
    obtain ⟨upToLast, bounded⟩ := ih nextForward more
    have last : (next :: rest).getLast?.getD extent = rest.getLast?.getD next := by
      cases rest <;> simp [List.getLast?_cons]
    rw [last]
    exact ⟨⟨Nat.le_refl _, forward, behind, upToLast.2⟩, bounded⟩

end InTurn

theorem Ordered.append {start middle stop : Nat} {first second : List Extent}
    (h : Ordered ⟨start, middle⟩ first) (h' : Ordered ⟨middle, stop⟩ second) :
    Ordered ⟨start, stop⟩ (first ++ second) := by
  have forward : start ≤ middle := h.forward
  have onward : middle ≤ stop := h'.forward
  refine ⟨Nat.le_trans forward onward, ?_, List.pairwise_append.mpr ⟨h.apart, h'.apart, ?_⟩⟩
  · rw [List.forall_mem_append]
    constructor
    · intro extent member
      obtain ⟨low, up, high⟩ := h.inside extent member
      exact ⟨low, up, Nat.le_trans high onward⟩
    · intro extent member
      obtain ⟨low, up, high⟩ := h'.inside extent member
      exact ⟨Nat.le_trans forward low, up, high⟩
  · intro extent member other otherMember
    obtain ⟨-, up, high⟩ := h.inside extent member
    obtain ⟨low, -, -⟩ := h'.inside other otherMember
    have apart : extent.stop ≤ other.start := Nat.le_trans high low
    exact ⟨Nat.le_trans up apart, .inl apart⟩

/-! ### Nodes in a text -/

/-- A node is written with the given characters. Named arguments reach from the first to the last of them, and
each up to the end of its value. -/
def Node.WrittenAs (written : Text) : Node Span → Prop
  | .expr (.path _ path) => path.written = written
  | .expr (.literal _ (.string value)) => ∃ quote inner, (quote = '"' ∨ quote = '\'') ∧
      written = quote :: (inner ++ [quote]) ∧ value = Text.replace inner ['\\', quote] [quote]
  | .expr (.literal _ (.number _ shown)) => shown = written
  | .expr (.literal label (.boolean value)) => (Expr.literal label (.boolean value)).name = written
  | .expr (.sub _ _) => ∃ inner, written = '(' :: (inner ++ [')'])
  | .pair p => p.name <+: written ∧ p.label.range.stop = p.value.label.range.stop
  | .named n => ∃ first last, n.pairs.head? = some first ∧ n.pairs.getLast? = some last ∧
      n.label.range = ⟨first.label.range.start, last.label.range.stop⟩
  | _ => True

/-- A node covers a range of a text, the nodes below it stand in the range in order, and it is written with
the characters of the range. -/
def Node.Laid (text : Text) (node : Node Span) : Prop :=
  ∃ own below, node.label.range = text.span own ∧ own.stop ≤ text.length ∧ Ordered own below ∧
    node.children.map (fun child => child.label.range) = below.map text.span ∧
    node.WrittenAs (text.slice own.start own.stop)

/-! ### Tokens in a text -/

/-- What tokens of a kind look like. -/
def TokenKind.Shape (written : Text) : TokenKind → Prop
  | .string => ∃ quote inner, (quote = '"' ∨ quote = '\'') ∧ written = quote :: (inner ++ [quote])
  | .boolean => written = "true".toList ∨ written = "false".toList
  | .openSub => written = ['(']
  | .closeSub => written = [')']
  | _ => True

theorem unescapedMark_take {mark before : Char} {text : Text} {n : Nat}
    (found : unescapedMark mark before text = some n) : ∃ inner, text.take n = inner ++ [mark] := by
  induction text generalizing before n with
  | nil => simp [unescapedMark] at found
  | cons c rest ih =>
    unfold unescapedMark at found
    split at found
    · next isMark =>
      obtain rfl := Option.some.inj found
      exact ⟨[], by rw [isMark.1]; rfl⟩
    · obtain ⟨shorter, later, rfl⟩ := Option.map_eq_some_iff.mp found
      obtain ⟨inner, taken⟩ := ih later
      exact ⟨c :: inner, by rw [List.take_succ_cons, taken]; rfl⟩

theorem lastMark_take {mark : Char} {text : Text} {n : Nat} (found : lastMark mark text = some n) :
    ∃ inner, text.take n = inner ++ [mark] := by
  induction text generalizing n with
  | nil => simp [lastMark] at found
  | cons c rest ih =>
    unfold lastMark at found
    split at found
    · next shorter later =>
      obtain rfl := Option.some.inj found
      obtain ⟨inner, taken⟩ := ih later
      exact ⟨c :: inner, by rw [List.take_succ_cons, taken]; rfl⟩
    · split at found
      · next isMark =>
        obtain rfl := Option.some.inj found
        exact ⟨[], by rw [isMark]; rfl⟩
      · cases found

theorem delimited?_take {opening mark : Char} {text : Text} {n : Nat}
    (found : delimited? opening mark text = some n) : ∃ inner, text.take n = inner ++ [mark] := by
  unfold delimited? at found
  split at found
  · next unescaped =>
    obtain rfl := Option.some.inj found
    exact unescapedMark_take unescaped
  · exact lastMark_take found

theorem word?_take {word text : Text} {n : Nat} (found : word? word text = some n) :
    n = word.length ∧ text.take n = word := by
  unfold word? at found
  split at found
  · next matched =>
    obtain rfl := Option.some.inj found
    rw [Bool.and_eq_true, Text.startsWith] at matched
    exact ⟨rfl, (List.prefix_iff_eq_take.mp (List.isPrefixOf_iff_prefix.mp matched.1)).symm⟩
  · cases found

/-- A token looks like its kind. -/
theorem lexeme?_shape {c : Char} {rest : Text} {kind : TokenKind} {length : Nat}
    (found : lexeme? c rest = some (kind, length)) : kind.Shape (c :: rest.take (length - 1)) := by
  have word {word : Text} (found : word? word (c :: rest) = some length) (filled : word.length ≠ 0) :
      c :: rest.take (length - 1) = word := by
    obtain ⟨rfl, taken⟩ := word?_take found
    obtain ⟨more, long⟩ := Nat.exists_eq_succ_of_ne_zero filled
    rw [long] at taken ⊢
    exact taken
  unfold lexeme? at found
  cases kind
  all_goals
    simp only [Option.orElse_eq_orElse, Option.orElse_eq_or, Option.or_eq_some_iff, Option.map_eq_some_iff,
      Option.ite_none_right_eq_some, Option.some.injEq, Prod.mk.injEq, reduceCtorEq, false_and, and_false,
      exists_false, false_or, or_false, true_and, exists_eq_right] at found
  case string =>
    obtain ⟨-, -, -, -, -, isQuote, n, closed, rfl⟩ := found
    obtain ⟨inner, taken⟩ := delimited?_take closed
    exact ⟨c, inner, isQuote, by rw [Nat.add_sub_cancel, taken]⟩
  case boolean =>
    obtain ⟨-, -, -, -, -, -, -, -, isTrue | ⟨-, isFalse⟩⟩ := found
    · exact .inl (word isTrue (by decide))
    · exact .inr (word isFalse (by decide))
  case openSub =>
    obtain ⟨-, -, rfl, rfl⟩ := found
    rfl
  case closeSub =>
    obtain ⟨-, -, -, rfl, rfl⟩ := found
    rfl
  all_goals trivial

/-- A token stands at its range and looks like its kind. -/
structure Token.Covers (text : Text) (token : Token) : Prop where
  forward : token.extent.start < token.extent.stop
  slice : text.slice token.extent.start token.extent.stop = token.text
  shape : token.kind.Shape token.text

/-- Tokens at their ranges, one behind the other from `start` up to `stop`. -/
def TokensIn (text : Text) (stop : Nat) : Nat → List Token → Prop
  | start, [] => start ≤ stop
  | start, token :: rest =>
    start ≤ token.extent.start ∧ token.Covers text ∧ TokensIn text stop token.extent.stop rest

theorem TokensIn.from {text : Text} {start earlier stop : Nat} {tokens : List Token}
    (h : TokensIn text stop start tokens) (le : earlier ≤ start) : TokensIn text stop earlier tokens := by
  cases tokens with
  | nil => exact Nat.le_trans le h
  | cons token rest => exact ⟨Nat.le_trans le h.1, h.2⟩

theorem TokensIn.le {text : Text} {start stop : Nat} {tokens : List Token} (h : TokensIn text stop start tokens) :
    start ≤ stop := by
  induction tokens generalizing start with
  | nil => exact h
  | cons token rest ih => exact Nat.le_trans h.1 (Nat.le_trans (Nat.le_of_lt h.2.1.forward) (ih h.2.2))

/-- The tokens that are cut from a part of a text stand in this part. -/
theorem tokens_in {text before inner after : Text} {found : List Token} (split : text = before ++ inner ++ after)
    (lexed : tokens before.length inner = .ok found) :
    TokensIn text (before.length + inner.length) before.length found := by
  induction size : inner.length using Nat.strongRecOn generalizing before inner found with
  | ind size ih =>
    rw [tokens.eq_def] at lexed
    split at lexed
    · obtain rfl := Except.ok.inj lexed
      exact Nat.le_add_right _ _
    · next c rest =>
      rw [List.length_cons] at size
      subst size
      split at lexed
      · have shifted : text = (before ++ [c]) ++ rest ++ after := by simp [split]
        have next : (before ++ [c]).length = before.length + 1 := by simp
        rw [← next] at lexed
        have later := ih rest.length (by omega) shifted lexed rfl
        rw [next, Nat.add_assoc, Nat.add_comm 1] at later
        exact later.from (Nat.le_succ _)
      · split at lexed
        · cases lexed
        · next kind length here =>
          obtain ⟨others, more, lexed⟩ := bind_ok lexed
          obtain rfl := Except.ok.inj lexed
          have reach := lexeme?_le here
          have shifted : text = (before ++ c :: rest.take (length - 1)) ++ rest.drop (length - 1) ++ after := by
            simp [split]
          have next : (before ++ c :: rest.take (length - 1)).length = before.length + 1 + (length - 1) := by
            simp only [List.length_append, List.length_cons, List.length_take]
            omega
          have stop : before.length + 1 + (length - 1) + (rest.drop (length - 1)).length =
              before.length + (rest.length + 1) := by
            rw [List.length_drop]
            omega
          rw [← next] at more
          have later := ih _ (by rw [List.length_drop]; omega) shifted more rfl
          rw [next, stop] at later
          refine ⟨Nat.le_refl _, ⟨by simp only; omega, ?_, lexeme?_shape here⟩, later⟩
          rw [shifted, List.append_assoc]
          exact Text.slice_append_of_length rfl (by rw [← next, List.length_append])

end Phrasebook.Template
