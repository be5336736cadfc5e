import Phrasebook.Proofs.Extract.Traversal
import Phrasebook.Proofs.Extract.Union

/-!
What the collector of keys finds. `helperCalls` lists the calls of the helper among nodes; the collector
stops at the first of them that has no key, and `Collected` says what it finds if all of them have one.
-/

namespace Phrasebook.Extract

open Template

/-! ### Calls of the helper -/

/-- A call of the helper, with the range of its mustache or its parentheses. -/
structure HelperCall where
  span : Span
  call : Call Span

namespace HelperCall

/-- The key of a call: its only operand, if that is a string. -/
def key? (used : HelperCall) : Option Text :=
  match used.call.params with
  | [.literal _ (.string value)] => some value
  | _ => none

/-- The names of the named arguments of a call, in source order. -/
def names (used : HelperCall) : List Text :=
  match used.call.named with
  | some named => named.pairs.map (·.name)
  | none => []

/-- The place of a call with the names of its arguments. -/
def site (source : String) (used : HelperCall) : CallSite := ⟨⟨source, used.span⟩, used.names⟩

/-- The complaint about a call that has no key. -/
def complaint (source : String) (helper : Text) (used : HelperCall) : Fault :=
  .violation ⟨.helperUsage helper, .ofPosition (some source) used.span.start⟩

/-- The call of a node, if what it calls is the path of the helper. -/
def of? (helper : Text) (label : Label Span) (call : Call Span) : Option HelperCall :=
  match call.callee with
  | .path _ reference => if reference.written = helper then some ⟨label.range, call⟩ else none
  | _ => none

end HelperCall

/-- The call of the helper that a node is: a mustache or a call in parentheses. -/
def helperCall? (helper : Text) : Node Span → Option HelperCall
  | .statement (.mustache label call _) => HelperCall.of? helper label call
  | .expr (.sub label call) => HelperCall.of? helper label call
  | _ => none

/-- The calls of the helper among nodes, in order. -/
def helperCalls (helper : Text) (nodes : List (Node Span)) : List HelperCall :=
  nodes.filterMap (helperCall? helper)

/-- Adds the key of a call of the helper. -/
def takeCall (source : String) (helper : Text) (keys : Keys) (used : HelperCall) : Except Fault Keys :=
  match used.key? with
  | some key => .ok (keys.add key used.names [used.site source])
  | none => .error (used.complaint source helper)

theorem helperCall?_eq (helper : Text) (node : Node Span) :
    helperCall? helper node = (callOf? node).bind (HelperCall.of? helper node.label) := by
  rcases node with _ | s | e | _ | _
  · rfl
  · cases s <;> rfl
  · cases e <;> rfl
  · rfl
  · rfl

theorem HelperCall.of?_eq (helper : Text) (label : Label Span) (call : Call Span) :
    HelperCall.of? helper label call = if callsHelper helper call then some ⟨label.range, call⟩ else none := by
  unfold HelperCall.of? callsHelper
  cases call.callee <;> simp

theorem collectAt_eq (source : String) (helper : Text) (keys : Keys) (node : Node Span) :
    collectAt source helper keys node =
      match helperCall? helper node with
      | some used => takeCall source helper keys used
      | none => .ok keys := by
  rw [helperCall?_eq, collectAt]
  cases callOf? node with
  | none => rfl
  | some call =>
    simp only [Option.bind_some, HelperCall.of?_eq, collectKey]
    split <;> rfl

/-- The collector takes the calls of the helper one by one. -/
theorem collectAll_eq (source : String) (helper : Text) (keys : Keys) (nodes : List (Node Span)) :
    nodes.foldlM (collectAt source helper) keys =
      (helperCalls helper nodes).foldlM (takeCall source helper) keys := by
  induction nodes generalizing keys with
  | nil => rfl
  | cons node rest ih =>
    rw [List.foldlM_cons, collectAt_eq]
    cases found : helperCall? helper node with
    | none =>
      rw [helperCalls, List.filterMap_cons_none found]
      exact ih keys
    | some used =>
      rw [helperCalls, List.filterMap_cons_some found, List.foldlM_cons]
      exact congrArg _ (funext ih)

/-! ### What is collected -/

/-- The calls among some that have a key. -/
def callsOf (calls : List HelperCall) (key : Text) : List HelperCall :=
  calls.filter fun used => used.key? = some key

/-- The keys of calls in the order of their first occurrence, each with all its calls in order and the
names of arguments that occur in any of them. -/
structure Collected (source : String) (calls : List HelperCall) (keys : Keys) : Prop where
  order : Members.names keys = (calls.filterMap HelperCall.key?).eraseDups
  sites (key : Text) : (keys.useOf key).sites = (callsOf calls key).map (HelperCall.site source)
  parameters (key name : Text) :
    name ∈ (keys.useOf key).parameters ↔ ∃ used ∈ callsOf calls key, name ∈ used.names
  distinct (key : Text) : (keys.useOf key).parameters.Nodup

theorem Collected.nil (source : String) : Collected source [] [] where
  order := rfl
  sites _ := rfl
  parameters _ _ := by simp [Keys.useOf, Members.get?, callsOf]
  distinct _ := List.nodup_nil

theorem Keys.useOf_add_self (keys : Keys) (key : Text) (parameters : List Text) (sites : List CallSite) :
    (keys.add key parameters sites).useOf key =
      ⟨union (keys.useOf key).parameters parameters, (keys.useOf key).sites ++ sites⟩ := by
  rw [Keys.useOf, Keys.add, Members.get?_alter_self]
  rfl

theorem Keys.useOf_add_of_ne (keys : Keys) {key other : Text} (apart : key ≠ other) (parameters : List Text)
    (sites : List CallSite) : (keys.add key parameters sites).useOf other = keys.useOf other := by
  rw [Keys.useOf, Keys.add, Members.get?_alter_of_ne _ apart, Keys.useOf]

theorem Collected.step {source : String} {calls : List HelperCall} {keys : Keys} {used : HelperCall} {key : Text}
    (h : Collected source calls keys) (isKey : used.key? = some key) :
    Collected source (calls ++ [used]) (keys.add key used.names [used.site source]) := by
  have others {other : Text} (apart : key ≠ other) : callsOf (calls ++ [used]) other = callsOf calls other := by
    simp [callsOf, isKey, apart]
  have same : callsOf (calls ++ [used]) key = callsOf calls key ++ [used] := by
    simp [callsOf, isKey]
  refine ⟨?_, fun other => ?_, fun other name => ?_, fun other => ?_⟩
  · rw [Keys.add, Members.names_alter h.order, List.filterMap_append, List.filterMap_cons_some isKey,
      List.filterMap_nil]
  · by_cases apart : key = other
    · subst apart
      rw [Keys.useOf_add_self, same, h.sites, List.map_append]
      rfl
    · rw [Keys.useOf_add_of_ne keys apart, others apart, h.sites]
  · by_cases apart : key = other
    · subst apart
      rw [Keys.useOf_add_self, same, mem_union, h.parameters]
      simp [or_and_right, exists_or]
    · rw [Keys.useOf_add_of_ne keys apart, others apart, h.parameters]
  · by_cases apart : key = other
    · subst apart
      rw [Keys.useOf_add_self]
      exact nodup_union (h.distinct key) _
    · rw [Keys.useOf_add_of_ne keys apart]
      exact h.distinct other

theorem Collected.run {source : String} {helper : Text} {seen calls : List HelperCall} {keys : Keys}
    (h : Collected source seen keys) (keyed : ∀ used ∈ calls, used.key? ≠ none) :
    ∃ keys', calls.foldlM (takeCall source helper) keys = .ok keys' ∧ Collected source (seen ++ calls) keys' := by
  induction calls generalizing seen keys with
  | nil => exact ⟨keys, rfl, by rwa [List.append_nil]⟩
  | cons used rest ih =>
    obtain ⟨here, later⟩ := List.forall_mem_cons.mp keyed
    obtain ⟨key, isKey⟩ := Option.ne_none_iff_exists'.mp here
    obtain ⟨keys', run, collected⟩ := ih (h.step isKey) later
    refine ⟨keys', ?_, by rwa [List.append_assoc] at collected⟩
    rw [List.foldlM_cons, takeCall, isKey]
    exact run

/-- The first call without a key stops the collector. -/
theorem takeCalls_stopped {source : String} {helper : Text} {before after : List HelperCall} {used : HelperCall}
    {keys : Keys} (keyed : ∀ earlier ∈ before, earlier.key? ≠ none) (noKey : used.key? = none) :
    (before ++ used :: after).foldlM (takeCall source helper) keys = .error (used.complaint source helper) := by
  induction before generalizing keys with
  | nil =>
    rw [List.nil_append, List.foldlM_cons, takeCall, noKey]
    rfl
  | cons first rest ih =>
    obtain ⟨here, later⟩ := List.forall_mem_cons.mp keyed
    obtain ⟨key, isKey⟩ := Option.ne_none_iff_exists'.mp here
    rw [List.cons_append, List.foldlM_cons, takeCall, isKey]
    exact ih later

/-! ### Whole analyses -/

theorem walk_keys {subject : Subject} {nodes : List (Node Span)} (known : ∀ node ∈ nodes, node.kind.isKnown = true)
    (visits : Visits) (findings : Findings) :
    nodes.foldlM (Walk.visit subject) ⟨[.keys], visits, findings⟩ =
      nodes.foldlM (meetKeys subject) (visits, findings.keys) >>= fun state =>
        .ok ⟨[.keys], state.1, { findings with keys := state.2 }⟩ := by
  induction nodes generalizing visits findings with
  | nil => rfl
  | cons node rest ih =>
    obtain ⟨here, later⟩ := List.forall_mem_cons.mp known
    rw [List.foldlM_cons, List.foldlM_cons, Walk.visit, if_pos here, meetAll_keys]
    cases meetKeys subject (visits, findings.keys) node with
    | error fault => rfl
    | ok state => exact ih later state.1 { findings with keys := state.2 }

theorem analyse_keys {subject : Subject} {program : Program Span}
    (known : ∀ node ∈ program.nodes, node.kind.isKnown = true) :
    (analyse subject [.keys] program).result =
      program.nodes.foldlM (meetKeys subject) ([], []) >>= fun state => .ok (⟨[], state.2⟩, state.1) := by
  have walked : Walk.over subject [.keys] program =
      program.nodes.foldlM (meetKeys subject) ([], []) >>= fun state => .ok ⟨[.keys], state.1, ⟨[], state.2⟩⟩ :=
    walk_keys known [] .empty
  rw [analyse, walked]
  cases program.nodes.foldlM (meetKeys subject) ([], []) <;> rfl

/-- An analysis for keys takes the calls of the helper one by one. -/
theorem analyse_takes {helper : Text} {source : String} {text : Text} {template : Template}
    (loaded : Template.load source text = .ok template) :
    (analyseTemplate template helper [.keys]).result =
      (helperCalls helper template.program.nodes).foldlM (takeCall source helper) [] >>= fun keys =>
        .ok (⟨[], keys⟩, visitsOf template.program.nodes) := by
  obtain ⟨tree, parsed, rfl⟩ := load_parsed loaded
  obtain ⟨tiled, -⟩ := parse_tiled parsed
  have known : ∀ node ∈ (tree.mapRange text.span).nodes, node.kind.isKnown = true := program_known tiled
  rw [analyseTemplate, analyse_keys known, meetAllKeys_fresh (fresh_nodes parsed), collectAll_eq, bind_assoc]
  rfl

/-- The collector of keys stops exactly if some call of the helper has no key, at the first such call. If
all of them have one, it finds the keys of the calls in the order of their first occurrence, each with
the places of its calls and the names of their arguments. -/
theorem analyse_collects {helper : Text} {source : String} {text : Text} {template : Template}
    (loaded : Template.load source text = .ok template) :
    let calls := helperCalls helper template.program.nodes
    let result := (analyseTemplate template helper [.keys]).result
    Walked (.program template.program) template.program.nodes ∧
      ((∃ place, result = .error (.violation ⟨.helperUsage helper, place⟩)) ↔ ∃ used ∈ calls, used.key? = none) ∧
      (∀ before used after, calls = before ++ used :: after → (∀ earlier ∈ before, earlier.key? ≠ none) →
        used.key? = none → result = .error (used.complaint source helper)) ∧
      ((∀ used ∈ calls, used.key? ≠ none) →
        ∃ keys visits, result = .ok (⟨[], keys⟩, visits) ∧ Collected source calls keys) := by
  intro calls result
  have takes : result = calls.foldlM (takeCall source helper) [] >>= fun keys =>
      .ok (⟨[], keys⟩, visitsOf template.program.nodes) := analyse_takes loaded
  have stops (before : List HelperCall) (used : HelperCall) (after : List HelperCall)
      (split : calls = before ++ used :: after) (keyed : ∀ earlier ∈ before, earlier.key? ≠ none)
      (noKey : used.key? = none) : result = .error (used.complaint source helper) := by
    rw [takes, split, takeCalls_stopped keyed noKey]
    rfl
  have ends (keyed : ∀ used ∈ calls, used.key? ≠ none) :
      ∃ keys visits, result = .ok (⟨[], keys⟩, visits) ∧ Collected source calls keys := by
    obtain ⟨keys, run, collected⟩ := (Collected.nil source).run keyed
    exact ⟨keys, _, by rw [takes, run]; rfl, collected⟩
  refine ⟨ProgramOf.walked _, ⟨fun ⟨place, failed⟩ => ?_, fun ⟨used, isIn, noKey⟩ => ?_⟩, stops, ends⟩
  · by_contra none
    obtain ⟨keys, visits, done, -⟩ := ends fun used isIn noKey => none ⟨used, isIn, noKey⟩
    rw [failed] at done
    cases done
  · have keyless : (calls.find? fun used => used.key?.isNone).isSome := by
      rw [List.find?_isSome]
      exact ⟨used, isIn, by rw [noKey]; rfl⟩
    obtain ⟨first, found⟩ := Option.isSome_iff_exists.mp keyless
    obtain ⟨noKey, before, after, split, keyed⟩ := List.find?_eq_some_iff_append.mp found
    refine ⟨_, stops before first after split (fun earlier isEarlier none => ?_) (Option.isNone_iff_eq_none.mp noKey)⟩
    simpa [none] using keyed earlier isEarlier

/-- Two calls with one key, the first in a block's tag around a call with another key. -/
theorem analyse_collects_nested :
    ∃ template keys visits, Template.load "page" (tagged "#if (t 'b' x=(t 'a'))" ++ tagged "t 'a' n=1" ++
        tagged "else if c" ++ tagged "t 'b' y=1 x=2" ++ tagged "/if") = .ok template ∧
      (analyseTemplate template ['t'] [.keys]).result = .ok (⟨[], keys⟩, visits) ∧
      Members.names keys = [['b'], ['a']] ∧
      (keys.useOf ['b']).sites.map CallSite.parameters = [[['x']], [['y'], ['x']]] ∧
      ∀ name, name ∈ (keys.useOf ['b']).parameters ↔ name = ['x'] ∨ name = ['y'] := by
  have runs : (Template.load "page" (tagged "#if (t 'b' x=(t 'a'))" ++ tagged "t 'a' n=1" ++
      tagged "else if c" ++ tagged "t 'b' y=1 x=2" ++ tagged "/if")).toOption.map (fun template =>
        (helperCalls ['t'] template.program.nodes).map fun used => (used.key?, used.names)) =
      some [(some ['b'], [['x']]), (some ['a'], []), (some ['a'], [['n']]), (some ['b'], [['y'], ['x']])] := by
    decide +kernel
  obtain ⟨template, read, calls⟩ := Option.map_eq_some_iff.mp runs
  have loaded := ok_of_toOption read
  obtain ⟨-, -, -, ends⟩ := @analyse_collects ['t'] _ _ _ loaded
  simp only [List.map_eq_cons_iff, List.map_eq_nil_iff, Prod.mk.injEq] at calls
  obtain ⟨b, _, listed, ⟨isB, ofB⟩, a, _, rfl, ⟨isA, ofA⟩, a', _, rfl, ⟨isA', ofA'⟩, b', _, rfl, ⟨isB', ofB'⟩,
    rfl⟩ := calls
  rw [listed] at ends
  obtain ⟨keys, visits, result, collected⟩ := ends (by simp [isB, isA, isA', isB'])
  have uses : callsOf [b, a, a', b'] ['b'] = [b, b'] := by simp [callsOf, isB, isA, isA', isB']
  refine ⟨template, keys, visits, loaded, result, ?_, ?_, fun name => ?_⟩
  · rw [collected.order]
    simp [isB, isA, isA', isB']
    rfl
  · rw [collected.sites, uses]
    simp [HelperCall.site, ofB, ofB']
  · rw [collected.parameters, uses]
    simp [ofB, ofB', or_comm]

end Phrasebook.Extract
