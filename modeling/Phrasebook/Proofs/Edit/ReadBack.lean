import Phrasebook.Proofs.Edit.Splicing
import Phrasebook.Proofs.Extract.Together

/-!
# Wrapped texts, read back

The call of the helper that an edit writes is read as a template of its own. Three readers have to agree
on where the quoted text ends: the one that looks for the end of the tag, the one that cuts the tag into
tokens, and the one that takes the quotes off again. They do for every `Wrappable` text.
-/

namespace Phrasebook

open Template Extract

variable {helper text : Text}

/-- The tree of a call of the helper that is a whole template. -/
def wrappedTree (helper text : Text) : Program Extent :=
  let extent : Extent := ⟨0, (wrap helper text).length⟩
  ⟨⟨0, extent⟩, [.mustache ⟨1, extent⟩ (helperCallAt helper text 2 2) true], [], false⟩

theorem pieces_wrap (isName : IsName helper) (h : Wrappable text) :
    pieces (wrap helper text) = ⟨[.tag (helperTag helper text)], none⟩ := by
  have turns : ReadInTurn [.tag (helperTag helper text)] := ⟨helperTag_readBefore isName h _, trivial⟩
  have read := pieces_textOf turns
  rwa [textOf_cons, show textOf [] = [] from rfl, List.append_nil,
    show (Piece.tag (helperTag helper text)).text = wrap helper text from helperTag_text helper text] at read

theorem addCall_helper (isName : IsName helper) (text : Text) :
    State.start.addCall (wrap helper text) ⟨helperTag helper text, 0⟩
        (fun label call => .mustache label call true) =
      .ok ⟨4, 0, [], [.mustache ⟨1, ⟨0, (wrap helper text).length⟩⟩ (helperCallAt helper text 2 2) true]⟩ := by
  have here : (wrap helper text).slice 2 (2 + helper.length) = helper := by
    rw [wrap_eq]
    simp [Text.slice]
  have extent : State.Placed.extent ⟨helperTag helper text, 0⟩ = ⟨0, (wrap helper text).length⟩ := by
    rw [State.Placed.extent, helperTag_text, Nat.zero_add]
  have called := @readCall_helper helper text isName _ _ here (State.start.next + 1) 0
  unfold State.addCall
  rw [extent]
  unfold State.Placed.call
  simp only [helperTag, State.Placed.inner, List.length_cons, List.length_nil, Nat.zero_add, called]
  rfl

theorem parse_wrap (isName : IsName helper) (h : Wrappable text) :
    parse (wrap helper text) = .ok (wrappedTree helper text) := by
  have taken : State.start.take (wrap helper text) (.tag (helperTag helper text)) = .ok
      ⟨4, 0 + (helperTag helper text).text.length, [],
        [.mustache ⟨1, ⟨0, (wrap helper text).length⟩⟩ (helperCallAt helper text 2 2) true]⟩ := by
    have call := addCall_helper isName text
    unfold State.take State.takeTag
    simp only [show State.start.offset = 0 from rfl, call]
    rfl
  unfold parse
  simp only [pieces_wrap isName h, List.foldlM_cons, List.foldlM_nil, taken]
  rfl

/-- The only call of the helper in a tree that is one is found as a key. -/
theorem analyse_wrappedTree (source : String) (whole helper text : Text) (f : Extent → Span) :
    analyseTemplate ⟨source, whole, (wrappedTree helper text).mapRange f⟩ helper [.keys] =
      ⟨[], .ok (⟨[], [(text, ⟨[], [⟨⟨source, f ⟨0, (wrap helper text).length⟩⟩, []⟩]⟩)]⟩, [(keyOwner, 1)])⟩ := by
  obtain ⟨call, isCall⟩ : ∃ call, call = Expr.mapCall f (helperCallAt helper text 2 2) := ⟨_, rfl⟩
  obtain ⟨label, isLabel⟩ : ∃ label : Label Span, label = ⟨1, f ⟨0, (wrap helper text).length⟩⟩ := ⟨_, rfl⟩
  have nodes : ((wrappedTree helper text).mapRange f).nodes = .program ((wrappedTree helper text).mapRange f) ::
      .statement (.mustache label call true) :: .expr call.callee :: call.params.map .expr := by
    rw [isCall, isLabel]
    rfl
  have calls : callsHelper helper call = true := by
    rw [isCall]
    exact decide_eq_true rfl
  have collected : collectKey source helper [] (.statement (.mustache label call true)) call =
      .ok [(text, ⟨[], [⟨⟨source, label.range⟩, []⟩]⟩)] := by
    rw [collectKey, calls, isCall]
    rfl
  have met : meetKeys ⟨source, whole, helper⟩ ([], []) (.statement (.mustache label call true)) =
      .ok ([(keyOwner, label.id)], [(text, ⟨[], [⟨⟨source, label.range⟩, []⟩]⟩)]) := by
    simp only [meetKeys, callOf?, firstVisit, Node.label, Statement.label, collected]
    rfl
  show analyse ⟨source, whole, helper⟩ [.keys] _ = _
  refine (analyse_apart (by decide)).mpr ⟨?_, ⟨rfl, rfl⟩, ?_⟩
  · rw [nodes, isCall]
    simp [helperCallAt, Expr.mapCall, Expr.mapRange, Expr.mapList, Node.kind, Kind.isKnown]
  · -- Only the second of the nodes is a call.
    have root : meetKeys ⟨source, whole, helper⟩ ([], [])
      (.program ((wrappedTree helper text).mapRange f)) = .ok ([], []) := rfl
    show List.foldlM _ _ ((wrappedTree helper text).mapRange f).nodes = _
    simp only [nodes, List.foldlM_cons, root, bind, Except.bind, met]
    rw [isCall, isLabel]
    rfl

/-- A text put into a call of the helper comes back as it was: the call is read as one tag from end to end,
with the name that was written and the text as its only operand, and the collector of keys takes the text
from it. -/
theorem load_wrap (isName : IsName helper) (h : Wrappable text) (source : String) :
    ∃ template label callee param path visits,
      Template.load source (wrap helper text) = .ok template ∧
      template.program.body = [.mustache label ⟨.path callee path, [.literal param (.string text)], none⟩ true] ∧
      label.range = (wrap helper text).span ⟨0, (wrap helper text).length⟩ ∧ path.written = helper ∧
      (analyseTemplate template helper [.keys]).result =
        .ok (⟨[], [(text, ⟨[], [⟨⟨source, label.range⟩, []⟩]⟩)]⟩, visits) := by
  have loaded : Template.load source (wrap helper text) =
      .ok ⟨source, wrap helper text, (wrappedTree helper text).mapRange (wrap helper text).span⟩ := by
    rw [Template.load, parse_wrap isName h]
  refine ⟨_, _, _, _, _, [(keyOwner, 1)], loaded, rfl, rfl, rfl, ?_⟩
  rw [analyse_wrappedTree]
  rfl

/-- A text with both quotes, closing braces, a line break, and pairs of backslashes in front of a quote and at
its end. -/
theorem load_wrap_quotes :
    ∃ text : Text, text = "say \\\\\"hi\", it's \x7d\x7d\n\\\\".toList ∧ IsName ['t'] ∧ Wrappable text ∧
      ∃ template label callee param path visits,
        Template.load "page" (wrap ['t'] text) = .ok template ∧
        template.program.body = [.mustache label ⟨.path callee path, [.literal param (.string text)], none⟩ true] ∧
        label.range = (wrap ['t'] text).span ⟨0, (wrap ['t'] text).length⟩ ∧ path.written = ['t'] ∧
        (analyseTemplate template ['t'] [.keys]).result =
          .ok (⟨[], [(text, ⟨[], [⟨⟨"page", label.range⟩, []⟩]⟩)]⟩, visits) := by
  have isName : IsName ['t'] := by decide
  have wrappable : Wrappable "say \\\\\"hi\", it's \x7d\x7d\n\\\\".toList := by decide +kernel
  exact ⟨_, rfl, isName, wrappable, load_wrap isName wrappable "page"⟩

end Phrasebook
