import Phrasebook.Proofs.Template.Descent
import Phrasebook.Proofs.Template.Stream

/-!
Calls read by descent. On tokens that stand in order the descent comes to what the readers of calls come
to, so it does not slip, and the ranges of all nodes run forward inside of the text.
-/

namespace Phrasebook.Template

/-! ### Agreement -/

/-- Two readings of a text come to the same good value, or to the same fault in the text. -/
inductive Agrees {α : Type} (text : Text) (good : α → Prop) : Except Ending α → Except Fault α → Prop where
  | ok {value : α} (h : good value) : Agrees text good (.ok value) (.ok value)
  | fault {fault : Fault} (h : Founded text fault) : Agrees text good (.error (.fault fault)) (.error fault)

namespace Agrees

variable {α β : Type} {text : Text} {good : α → Prop} {good' : β → Prop}

theorem bind {first : Except Ending α} {second : Except Fault α} {next : α → Except Ending β}
    {next' : α → Except Fault β} (h : Agrees text good first second)
    (later : ∀ value, good value → Agrees text good' (next value) (next' value)) :
    Agrees text good' (first >>= next) (second >>= next') := by
  cases h with
  | ok h => exact later _ h
  | fault h => exact .fault h

theorem lands {first : Except Ending α} {second : Except Fault α} (h : Agrees text good first second) :
    Lands text good second := by
  cases h with
  | ok h => exact .ok h
  | fault h => exact .fault h

theorem eq {first : Except Ending α} {second : Except Fault α} (h : Agrees text good first second) :
    first = second.mapError .fault := by
  cases h <;> rfl

end Agrees

namespace Page

variable {page : Page}

theorem fail_agrees {α : Type} {good : α → Prop} (cause : Cause) {offset : Nat}
    (inside : offset ≤ page.text.length) :
    Agrees page.text good (page.fail cause offset) (.error (.malformed cause offset)) := by
  rw [fail, Nat.min_eq_left inside]
  exact .fault (.malformed cause inside)

theorem accept_agrees {α : Type} {good : α → Prop} {result : Except Fault α} (h : Lands page.text good result) :
    Agrees page.text good (page.accept result) result := by
  cases h with
  | ok h => exact .ok h
  | fault h =>
    cases h with
    | malformed cause inside => exact fail_agrees cause inside
    | longInteger split isDigits long ends => exact .fault (.longInteger split isDigits long ends)

theorem range_eq {start stop : Nat} (forward : start ≤ stop) (inside : stop ≤ page.text.length) :
    page.range start stop = .ok ⟨start, stop⟩ := by
  have notBackward : ¬page.text.position stop < page.text.position start := by
    rw [Text.position_lt_iff]
    omega
  rw [range, place, place, if_pos (Nat.le_trans forward inside), if_pos inside]
  simp only [bind, Except.bind, Span.between, if_neg notBackward]

theorem offset_eq {offset : Nat} (inside : offset ≤ page.text.length) :
    page.offset (page.text.position offset) = .ok offset := by
  obtain ⟨row, isRow, line⟩ := Text.exists_row inside
  rw [Page.offset, line, Int.add_sub_cancel, Text.index?_natCast isRow, Text.offset_position]
  rfl

end Page

/-! ### Tokens -/

@[simp] theorem demand_cons (token : Token) (rest : List Token) :
    demand (token :: rest) = .ok (token, ⟨rest, Nat.lt_succ_self _⟩) := rfl

@[simp] theorem peek_cons (token : Token) (rest : List Token) : peek (token :: rest) = some token.kind := rfl

theorem peek_eq_iff {token : Token} {rest : List Token} {kind : TokenKind} :
    peek (token :: rest) = some kind ↔ token.kind = kind := Option.some_inj

theorem peeksOperand_cons (token : Token) (rest : List Token) :
    peeksOperand (token :: rest) = token.startsOperand := rfl

theorem ok_bind {α β ε : Type} (value : α) (next : α → Except ε β) : (Except.ok value >>= next) = next value := rfl

variable {page : Page}

theorem segments_agrees {stop : Nat} {tokens : List Token} (bounded : stop ≤ page.text.length)
    (inOrder : InOrder page.text stop tokens) :
    Agrees page.text
      (fun more => stop ≤ more.stop ∧ more.stop ≤ page.text.length ∧ InOrder page.text more.stop more.rest)
      (page.segments stop tokens) (segments stop tokens) := by
  fun_induction segments stop tokens with
  | case1 stop =>
    rw [Page.segments]
    exact .ok ⟨Nat.le_refl _, bounded, trivial⟩
  | case2 stop separator continues =>
    rw [Page.segments, if_pos (by simpa using continues)]
    exact Page.fail_agrees _ inOrder.2.1.inside
  | case3 stop separator continues segment rest named ih =>
    obtain ⟨after, separatorAt, afterSeparator, segmentAt, inOrder⟩ := inOrder
    rw [Page.segments, if_pos (by simpa using continues)]
    simp only [demand_cons, ok_bind, if_pos named]
    refine (ih segmentAt.bounded inOrder).bind fun more ⟨forward, inside, left⟩ => .ok ⟨?_, inside, left⟩
    have := separatorAt.forward
    have := segmentAt.forward
    simp only
    omega
  | case4 stop separator continues segment rest notNamed =>
    rw [Page.segments, if_pos (by simpa using continues)]
    simp only [demand_cons, ok_bind, if_neg notNamed]
    exact Page.fail_agrees _ inOrder.2.1.inside
  | case5 stop separator rest ends =>
    rw [Page.segments, if_neg (by simpa using ends)]
    exact .ok ⟨Nat.le_refl _, bounded, inOrder⟩

/-! ### Ranges of nodes -/

/-- The nodes cover ranges of a text, none of them empty. -/
def Within (text : Text) (nodes : List (Node Extent)) : Prop :=
  ∀ node ∈ nodes, node.label.range.start < node.label.range.stop ∧ node.label.range.stop ≤ text.length

theorem within_cons {text : Text} {node : Node Extent} {nodes : List (Node Extent)} :
    Within text (node :: nodes) ↔
      (node.label.range.start < node.label.range.stop ∧ node.label.range.stop ≤ text.length) ∧ Within text nodes :=
  List.forall_mem_cons

theorem within_append {text : Text} {first second : List (Node Extent)} :
    Within text (first ++ second) ↔ Within text first ∧ Within text second :=
  List.forall_mem_append

theorem Expr.mem_nodes {ρ : Type} (e : Expr ρ) : .expr e ∈ e.nodes := by
  cases e <;> exact List.mem_cons_self

theorem pair_mem_pairNodes {ρ : Type} {pairs : List (NamedArg ρ (Expr ρ))} {pair : NamedArg ρ (Expr ρ)}
    (member : pair ∈ pairs) : .pair pair ∈ Expr.pairNodes pairs := by
  induction pairs with
  | nil => cases member
  | cons first rest ih =>
    rw [Expr.pairNodes]
    rcases List.mem_cons.mp member with rfl | later
    · exact List.mem_cons_self
    · exact List.mem_cons_of_mem _ (List.mem_append_right _ (ih later))

/-- An operand that starts at an offset was read from tokens that stand in order. -/
structure Parsed.From {bound : Nat} (text : Text) (start : Nat) (parsed : Parsed (Expr Extent) bound) : Prop where
  start : parsed.value.label.range.start = start
  within : Within text parsed.value.nodes
  left : InOrder text parsed.value.label.range.stop parsed.rest

theorem Parsed.From.range {bound : Nat} {text : Text} {start : Nat} {parsed : Parsed (Expr Extent) bound}
    (h : parsed.From text start) :
    start < parsed.value.label.range.stop ∧ parsed.value.label.range.stop ≤ text.length := by
  rw [← h.start]
  exact h.within _ (Expr.mem_nodes _)

/-- Named arguments behind an offset were read from tokens that stand in order. -/
structure PairsFrom {bound : Nat} (text : Text) (start : Nat)
    (parsed : Parsed (List (NamedArg Extent (Expr Extent))) bound) : Prop where
  within : Within text (Expr.pairNodes parsed.value)
  sorted : (parsed.value.map (·.label.range.start)).Pairwise (· ≤ ·)
  behind : ∀ pair ∈ parsed.value, start ≤ pair.label.range.start
  left : InOrder text start parsed.rest

/-- Arguments behind an offset were read from tokens that stand in order. -/
structure ArgumentsFrom {bound : Nat} (text : Text) (start : Nat)
    (parsed : Parsed (List (Expr Extent) × Option (NamedArgs Extent (Expr Extent))) bound) : Prop where
  within : Within text (Expr.listNodes parsed.value.1 ++ Expr.namedNodes parsed.value.2)
  left : InOrder text start parsed.rest

theorem pathFrom_agrees {next : Nat} {data : Bool} {first segment : Token} {rest : List Token}
    (forward : first.extent.start < segment.extent.stop) (bounded : segment.extent.stop ≤ page.text.length)
    (inOrder : InOrder page.text segment.extent.stop rest) :
    Agrees page.text (Parsed.From page.text first.extent.start) (page.pathFrom next data first segment rest)
      (readPath page.text next data first segment rest) := by
  refine (segments_agrees bounded inOrder).bind fun more ⟨onward, inside, left⟩ => ?_
  have ahead : first.extent.start < more.stop := Nat.lt_of_lt_of_le forward onward
  rw [Page.range_eq (Nat.le_of_lt ahead) inside, ok_bind]
  exact .ok ⟨rfl, within_cons.mpr ⟨⟨ahead, inside⟩, by simp [Within]⟩, left⟩

theorem Parsed.From.weaken {bound loose : Nat} {text : Text} {start : Nat} {parsed : Parsed (Expr Extent) bound}
    (h : parsed.From text start) (le : bound ≤ loose) : (parsed.weaken le).From text start :=
  ⟨h.start, h.within, h.left⟩

/-! ### Operands and arguments

The descent and the readers are compared call by call, faults included, so the readers are followed where they
fail too and not only through what they read. Each is treated under the assumption that the others agree on
fewer than `size` tokens. -/

section Readers

variable (page : Page) (size : Nat)

/-- Operands in front of fewer than `size` tokens are read alike. -/
def OperandsAgree : Prop :=
  ∀ (next : Nat) (token : Token) (rest : List Token), rest.length < size → token.At page.text →
    InOrder page.text token.extent.stop rest →
    Agrees page.text (Parsed.From page.text token.extent.start) (page.operand next (token :: rest))
      (readOperand page.text next token rest)

/-- Arguments of fewer than `size` tokens are read alike. -/
def ArgumentsAgree : Prop :=
  ∀ (next start : Nat) (tokens : List Token), tokens.length < size → InOrder page.text start tokens →
    Agrees page.text (ArgumentsFrom page.text start) (page.arguments next tokens)
      (readArguments page.text next tokens)

/-- Named arguments of fewer than `size` tokens are read alike. -/
def NamedAgree : Prop :=
  ∀ (next start : Nat) (tokens : List Token), tokens.length < size → InOrder page.text start tokens →
    Agrees page.text (PairsFrom page.text start) (page.named next tokens) (readNamed page.text next tokens)

variable {page size}

theorem literal_agrees {next : Nat} {token : Token} {rest : List Token} (here : token.At page.text)
    (inOrder : InOrder page.text token.extent.stop rest) :
    Agrees page.text (Parsed.From page.text token.extent.start)
      (do
        let extent ← page.range token.extent.start token.extent.stop
        let literal ← page.accept (readLiteral token)
        .ok ⟨.literal ⟨next, extent⟩ literal, next + 1, rest, Nat.le_refl _⟩ :
          Except Ending (Parsed (Expr Extent) rest.length))
      (do
        let literal ← readLiteral token
        .ok ⟨.literal ⟨next, token.extent⟩ literal, next + 1, rest, Nat.le_refl _⟩) := by
  rw [Page.range_eq (Nat.le_of_lt here.forward) here.bounded, ok_bind]
  refine (Page.accept_agrees here.literal).bind fun literal _ => .ok ⟨rfl, ?_, inOrder⟩
  exact within_cons.mpr ⟨⟨here.forward, here.bounded⟩, by simp [Within]⟩

theorem operandsAgree_succ (operands : OperandsAgree page size) (arguments : ArgumentsAgree page size) :
    OperandsAgree page (size + 1) := by
  intro next token rest short here inOrder
  rw [Page.operand, readOperand.eq_def]
  simp only [demand_cons, ok_bind]
  cases kind : token.kind with
  | openSub =>
    cases rest with
    | nil => exact Page.fail_agrees _ here.inside
    | cons first rest =>
      obtain ⟨behind, firstAt, inOrder⟩ := inOrder
      have peeks := peeksOperand_cons first rest
      dsimp only
      by_cases starts : first.startsOperand = true
      · rw [if_pos (peeks.trans starts), if_pos starts]
        have fewer : rest.length < size := Nat.lt_of_succ_lt_succ short
        refine (operands _ _ _ fewer firstAt inOrder).bind fun callee inCallee => ?_
        refine (arguments _ _ _ (Nat.lt_of_le_of_lt callee.bounded fewer) inCallee.left).bind fun given inGiven => ?_
        obtain ⟨value, next', left, fewer⟩ := given
        obtain ⟨within, inOrder⟩ := inGiven
        cases left with
        | nil => exact Page.fail_agrees _ here.inside
        | cons closer after =>
          obtain ⟨closes, closerAt, inOrder⟩ := inOrder
          have ahead := inCallee.range.1
          have forward := here.forward
          have closerForward := closerAt.forward
          have inside := closerAt.bounded
          have onward : token.extent.start < closer.extent.stop := by omega
          dsimp only
          split
          · rw [Page.range_eq (Nat.le_of_lt onward) inside, ok_bind]
            refine .ok ⟨rfl, within_cons.mpr ⟨⟨onward, inside⟩, ?_⟩, inOrder⟩
            rw [Expr.callNodes, List.append_assoc]
            exact within_append.mpr ⟨inCallee.within, within⟩
          · exact Page.fail_agrees _ closerAt.inside
      · rw [if_neg (peeks ▸ starts), if_neg starts]
        exact Page.fail_agrees _ here.inside
  | name =>
    have notData : ¬token.kind = .data := by simp [kind]
    dsimp only
    rw [Page.path, demand_cons, ok_bind, ← bind_pure (readPath page.text next false token token rest)]
    dsimp only
    rw [if_neg notData]
    exact (pathFrom_agrees here.forward here.bounded inOrder).bind fun path good => .ok (good.weaken (Nat.le_refl _))
  | data =>
    dsimp only
    rw [Page.path, demand_cons, ok_bind]
    dsimp only
    rw [if_pos kind]
    cases rest with
    | nil => exact Page.fail_agrees _ here.inside
    | cons segment rest =>
      obtain ⟨behind, segmentAt, inOrder⟩ := inOrder
      have forward := here.forward
      have onward := segmentAt.forward
      dsimp only
      by_cases named : segment.kind = .name
      · rw [if_pos (peek_eq_iff.mpr named), if_pos named, demand_cons, ok_bind]
        exact (pathFrom_agrees (by omega) segmentAt.bounded inOrder).bind fun path good =>
          .ok (good.weaken (Nat.le_succ _))
      · rw [if_neg (named ∘ peek_eq_iff.mp), if_neg named]
        exact Page.fail_agrees _ here.inside
  | _ => exact literal_agrees here inOrder

theorem namedAgree_succ (operands : OperandsAgree page size) (named : NamedAgree page size) :
    NamedAgree page (size + 1) := by
  intro next start tokens short inOrder
  have done : Agrees page.text (PairsFrom page.text start) (.ok ⟨[], next, tokens, Nat.le_refl _⟩)
      (.ok ⟨[], next, tokens, Nat.le_refl _⟩) :=
    .ok ⟨by simp [Within, Expr.pairNodes], .nil, by simp, inOrder⟩
  rw [Page.named, readNamed.eq_def]
  rcases tokens with _ | ⟨name, _ | ⟨equals, rest⟩⟩
  · exact done
  · exact done
  · obtain ⟨behind, nameAt, toEquals, equalsAt, inOrder⟩ := inOrder
    have forward := nameAt.forward
    have apart := equalsAt.forward
    have starts : startsNamed (name :: equals :: rest) = true ↔ name.kind = .name ∧ equals.kind = .equals := by
      simp [startsNamed]
    dsimp only
    by_cases isNamed : name.kind = .name ∧ equals.kind = .equals
    · rw [if_pos (starts.mpr isNamed), if_pos isNamed]
      simp only [demand_cons, ok_bind]
      cases rest with
      | nil => exact Page.fail_agrees _ nameAt.inside
      | cons token rest =>
        obtain ⟨toValue, tokenAt, inOrder⟩ := inOrder
        have peeks := peeksOperand_cons token rest
        dsimp only
        by_cases starts : token.startsOperand = true
        · rw [if_pos (peeks.trans starts), if_pos starts]
          have fewer : rest.length < size := by
            simp only [List.length_cons] at short
            omega
          refine (operands _ _ _ fewer tokenAt inOrder).bind fun value inValue => ?_
          obtain ⟨ahead, bounded⟩ := inValue.range
          have onward : name.extent.start < value.value.label.range.stop := by omega
          rw [Page.offset_eq bounded, ok_bind, Page.range_eq (Nat.le_of_lt onward) bounded, ok_bind]
          refine (named _ _ _ (Nat.lt_of_le_of_lt value.bounded fewer) inValue.left).bind fun more inMore => ?_
          obtain ⟨within, sorted, later, left⟩ := inMore
          refine .ok ⟨?_, ?_, ?_, ?_⟩
          · exact within_cons.mpr ⟨⟨onward, bounded⟩, within_append.mpr ⟨inValue.within, within⟩⟩
          · rw [List.map_cons, List.pairwise_cons]
            refine ⟨fun place isPlace => ?_, sorted⟩
            obtain ⟨pair, isIn, rfl⟩ := List.mem_map.mp isPlace
            exact Nat.le_trans (Nat.le_of_lt onward) (later pair isIn)
          · refine List.forall_mem_cons.mpr ⟨behind, fun pair isIn => ?_⟩
            have := later pair isIn
            omega
          · exact left.mono (by omega)
        · rw [if_neg (peeks ▸ starts), if_neg starts]
          exact Page.fail_agrees _ nameAt.inside
    · rw [if_neg (isNamed ∘ starts.mp), if_neg isNamed]
      exact done

theorem argumentsAgree_succ (operands : OperandsAgree page size) (arguments : ArgumentsAgree page size)
    (named : NamedAgree page (size + 1)) : ArgumentsAgree page (size + 1) := by
  intro next start tokens short inOrder
  rw [Page.arguments, readArguments.eq_def]
  cases tokens with
  | nil =>
    rw [dif_neg (by simp [peeksOperand])]
    rw [Page.named, if_neg (by simp [startsNamed])]
    exact .ok ⟨by simp [Within, Expr.listNodes, Expr.namedNodes], trivial⟩
  | cons token rest =>
    obtain ⟨behind, here, inOrder⟩ := inOrder
    have peeks := peeksOperand_cons token rest
    dsimp only
    by_cases starts : token.startsOperand ∧ ¬startsNamed (token :: rest)
    · rw [dif_pos (peeks ▸ starts), if_pos starts]
      have fewer := Nat.lt_of_succ_lt_succ short
      refine (operands _ _ _ fewer here inOrder).bind fun param inParam => ?_
      refine (arguments _ _ _ (Nat.lt_of_le_of_lt param.bounded fewer) inParam.left).bind fun more inMore => .ok ⟨?_, ?_⟩
      · rw [Expr.listNodes, List.append_assoc]
        exact within_append.mpr ⟨inParam.within, inMore.within⟩
      · have ahead := inParam.range.1
        exact inMore.left.mono (by omega)
    · rw [dif_neg (peeks ▸ starts), if_neg starts]
      refine (named _ _ _ short ⟨behind, here, inOrder⟩).bind fun found inNamed => ?_
      obtain ⟨value, next', left, bounded⟩ := found
      cases value with
      | nil => exact .ok ⟨by simp [Within, Expr.listNodes, Expr.namedNodes], inNamed.left⟩
      | cons first others =>
        obtain ⟨within, sorted, -, inOrder⟩ := inNamed
        have isLast : others.getLast?.getD first ∈ first :: others := by
          cases found : others.getLast? with
          | none => exact List.mem_cons_self
          | some last => exact List.mem_cons_of_mem _ (List.mem_of_getLast? found)
        dsimp only
        generalize others.getLast?.getD first = last at isLast ⊢
        have behindFirst : first.label.range.start ≤ last.label.range.start := by
          rcases List.mem_cons.mp isLast with rfl | isLater
          · exact Nat.le_refl _
          · exact (List.pairwise_cons.mp sorted).1 _ (List.mem_map_of_mem isLater)
        obtain ⟨forward, bounded⟩ := within (.pair last) (pair_mem_pairNodes isLast)
        have onward : first.label.range.start < last.label.range.stop := Nat.lt_of_le_of_lt behindFirst forward
        rw [Page.range_eq (Nat.le_of_lt onward) bounded, ok_bind]
        exact .ok ⟨within_cons.mpr ⟨⟨onward, bounded⟩, within⟩, inOrder⟩

theorem readers_agree (page : Page) (size : Nat) :
    OperandsAgree page size ∧ ArgumentsAgree page size ∧ NamedAgree page size := by
  induction size with
  | zero =>
    exact ⟨fun _ _ _ short => absurd short (Nat.not_lt_zero _), fun _ _ _ short => absurd short (Nat.not_lt_zero _),
      fun _ _ _ short => absurd short (Nat.not_lt_zero _)⟩
  | succ size ih =>
    obtain ⟨operands, arguments, named⟩ := ih
    have more := namedAgree_succ operands named
    exact ⟨operandsAgree_succ operands arguments, argumentsAgree_succ operands arguments more, more⟩

end Readers

/-! ### Whole calls -/

theorem names_eq (tokens : List Token) : Page.names tokens = .ok (spanNames tokens) := by
  induction tokens with
  | nil =>
    rw [Page.names]
    rfl
  | cons token rest ih =>
    rw [Page.names, spanNames]
    by_cases isName : token.kind = .name
    · rw [if_pos (peek_eq_iff.mpr isName), if_pos isName, demand_cons, ok_bind]
      dsimp only
      rw [ih]
      rfl
    · rw [if_neg (isName ∘ peek_eq_iff.mp), if_neg isName]

theorem spanNames_inOrder {text : Text} {start : Nat} {tokens : List Token} (h : InOrder text start tokens) :
    InOrder text start (spanNames tokens).2 := by
  induction tokens generalizing start with
  | nil => trivial
  | cons token rest ih =>
    rw [spanNames]
    split
    · have forward := h.2.1.forward
      exact (ih h.2.2).mono (by have := h.1; omega)
    · exact h

theorem blockParams_agrees {allowed : Bool} {start : Nat} {tokens : List Token}
    (inOrder : InOrder page.text start tokens) :
    Agrees page.text (fun params => InOrder page.text start params.2) (page.blockParams allowed tokens)
      (readBlockParams allowed tokens) := by
  unfold Page.blockParams readBlockParams
  cases tokens with
  | nil => exact .ok trivial
  | cons opener rest =>
    have whole := inOrder
    obtain ⟨behind, openerAt, inOrder⟩ := inOrder
    have forward := openerAt.forward
    have inside := openerAt.inside
    dsimp only
    by_cases opens : opener.kind = .openParams
    · rw [if_pos (peek_eq_iff.mpr opens), if_pos opens, demand_cons, ok_bind]
      dsimp only
      cases allowed with
      | false => exact Page.fail_agrees _ inside
      | true =>
        have left := spanNames_inOrder inOrder
        rw [if_pos rfl, if_pos rfl, names_eq, ok_bind]
        generalize spanNames rest = found at left
        rcases found with ⟨_ | ⟨name, others⟩, _ | ⟨closer, after⟩⟩
        · exact Page.fail_agrees _ inside
        · exact Page.fail_agrees _ inside
        · exact Page.fail_agrees _ inside
        · dsimp only
          split
          · have closerForward := left.2.1.forward
            exact .ok (left.2.2.mono (by have := left.1; omega))
          · exact Page.fail_agrees _ inside
    · rw [if_neg (opens ∘ peek_eq_iff.mp), if_neg opens]
      exact .ok whole

/-- The call of a tag that stands at its place is read alike. -/
theorem call_agrees {placed : State.Placed} {next : Nat} {allowParams : Bool} (before after : Text)
    (split : page.text = before ++ placed.tag.inner ++ after) (here : before.length = placed.inner)
    (ends : EndsNumber after) (inside : placed.start ≤ page.text.length) :
    Agrees page.text (fun read => Within page.text (Expr.callNodes read.call)) (page.call placed next allowParams)
      (placed.call page.text next allowParams) := by
  unfold Page.call State.Placed.call readCall
  refine (Page.accept_agrees (tokens_lands split here ends)).bind fun found inOrder => ?_
  obtain ⟨operands, arguments, -⟩ := readers_agree page (found.length + 1)
  cases found with
  | nil => exact Page.fail_agrees _ inside
  | cons token rest =>
    obtain ⟨-, tokenAt, inOrder⟩ := inOrder
    have fewer : rest.length < (token :: rest).length + 1 := by simp only [List.length_cons]; omega
    rw [if_neg (List.cons_ne_nil _ _)]
    refine (operands _ _ _ fewer tokenAt inOrder).bind fun callee inCallee => ?_
    refine (arguments _ _ _ (Nat.lt_of_le_of_lt callee.bounded fewer) inCallee.left).bind fun given inGiven => ?_
    refine (blockParams_agrees inGiven.left).bind fun ⟨params, left⟩ inOrder => ?_
    cases left with
    | nil =>
      refine .ok ?_
      rw [Expr.callNodes, List.append_assoc]
      exact within_append.mpr ⟨inCallee.within, inGiven.within⟩
    | cons leftover more =>
      exact Page.fail_agrees _ inOrder.2.1.inside

end Phrasebook.Template
