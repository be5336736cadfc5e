import Phrasebook.Proofs.Command.Updating
import Phrasebook.Proofs.Edit.RoundTrip
import Phrasebook.Proofs.Session.Performing
import Phrasebook.Proofs.Theme.CatalogFiles
import Phrasebook.Proofs.Theme.Independence

/-!
# Themes after an update

Where the writes of an update are done, the theme can be read again: `Updatable.parts` says what its templates and
its catalogs come to then.
-/

namespace Phrasebook

open Files Extract Mask
open Template (IsName)
open FileTree (Linkless locate_ok_iff read_ok_iff inside_ok_iff parts_proper)

/-- Without links a file of a theme stands at the place that it is read from. -/
theorem FileTree.Linkless.stands {tree : FileTree} {root : Path} (linkless : tree.Linkless root) {rest : List String}
    (proper : ∀ name ∈ rest, name ≠ up ∧ ¬Path.isIdle name = true) {bytes : ByteArray}
    (read : tree.read (root ++ rest) = .ok bytes) :
    tree.locate (root ++ rest) = .ok (root ++ rest) ∧ tree.find (root ++ rest) = .ok (.file bytes) := by
  obtain ⟨-, place, located, stands⟩ := read_ok_iff.mp read
  obtain rfl := linkless.locate_eq proper located
  exact ⟨located, stands⟩

namespace Theme

/-! ### Templates -/

section

variable {tree : FileTree} {root target : Path} {helper contents : Text} {path : String} {bytes : ByteArray}
  {template : Template} {findings : Findings}

theorem examineText_text (examined : (examineText path contents helper).result = .ok (.analysed template findings)) :
    template.text = contents := by
  unfold examineText at examined
  split at examined
  · next template' loaded =>
    unfold analyse at examined
    dsimp only at examined
    split at examined
    · obtain ⟨rfl, -⟩ := Examined.analysed.inj (Except.ok.inj examined)
      exact (load_eq loaded).2
    · cases examined
    · cases examined
  · cases examined
  · cases examined

theorem examine_contents (examined : (examine tree root helper path).result = .ok (.analysed template findings)) :
    ∃ target bytes, tree.inside root path = .ok target ∧ tree.read target = .ok bytes ∧
      Encoding.decode? bytes = some template.text := by
  unfold examine at examined
  split at examined
  · cases examined
  · cases examined
  · next bytes found =>
    obtain ⟨target, within, read⟩ := bind_ok found
    split at examined
    · cases examined
    · next contents decoded => exact ⟨target, bytes, within, read, by rw [decoded, examineText_text examined]⟩

theorem examine_of_contents (within : tree.inside root template.source = .ok target) (read : tree.read target = .ok bytes)
    (decoded : Encoding.decode? bytes = some template.text) (analysed : Analysed helper template findings) :
    (examine tree root helper template.source).result = .ok (.analysed template findings) := by
  obtain ⟨loaded, visits, done⟩ := analysed
  have found : (tree.inside root template.source >>= tree.read) = .ok bytes := by
    rw [within]
    exact read
  unfold examine
  rw [found]
  dsimp only
  rw [decoded]
  dsimp only
  rw [examineText, loaded]
  simp only [analyse, done]

end

/-- What becomes of a template that was examined when its theme is updated. -/
inductive Reexamined (helper : Text) (all : Bool) (rendered : List (String × Text)) : Examined → Examined → Prop where
  | analysed {old new : Template × Findings} (again : Reanalysed helper all rendered old new) :
      Reexamined helper all rendered (.analysed old.1 old.2) (.analysed new.1 new.2)
  | failed (failure : Failure) : Reexamined helper all rendered (.failed failure) (.failed failure)

theorem reexamined_parts {helper : Text} {all : Bool} {rendered : List (String × Text)} {old new : List Examined}
    (each : List.Forall₂ (Reexamined helper all rendered) old new) :
    new.filterMap Examined.failed? = old.filterMap Examined.failed? ∧ List.Forall₂ (Reanalysed helper all rendered)
      (old.filterMap Examined.analysed?) (new.filterMap Examined.analysed?) := by
  induction each with
  | nil => exact ⟨rfl, .nil⟩
  | cons here _ ih =>
    cases here with
    | analysed again => exact ⟨ih.1, .cons again ih.2⟩
    | failed failure => exact ⟨congrArg (failure :: ·) ih.1, ih.2⟩

/-! ### The writes of an update -/

/-- The writes of the new texts of templates. -/
def templateWrites (root : Path) (rendered : List (String × Text)) : List Write :=
  rendered.map fun pair => ⟨root ++ Path.parts pair.1, .ok pair.2.points⟩

/-- The writes of catalogs. -/
def catalogWrites (root : Path) (directory : String) (catalogs : List Catalog) : List Write :=
  catalogs.map fun catalog => ⟨root ++ Path.parts (Command.catalogPath directory catalog.locale), catalog.serialize⟩

/-- The writes of an update that adds keys to all catalogs. -/
def updateWrites (root : Path) (directory : String) (rendered : List (String × Text)) (catalogs : Catalogs)
    (keys : List CodePoints) : List Write :=
  templateWrites root rendered ++
    catalogWrites root directory (catalogs.map fun entry => (entry.2.update ⟨keys, []⟩).catalog)

/-- What a theme must be for it to be read again after an update: it stands in a plain tree, no catalog is a template
or named for its ending alone, and every template with texts to be put into calls can be read again. -/
structure Updatable (settings : Settings) (all : Bool) (tree : FileTree) (theme : Theme) : Prop where
  regular : tree.Regular theme.root
  isName : IsName settings.helper
  ordinary : ∀ c ∈ settings.helper, isReserved c = false
  rereadable : ∀ template ∈ theme.templates, ∀ findings, Analysed settings.helper template findings →
    findings.texts.translatable all ≠ [] → Rereadable all template findings
  filled : ".json" ∉ Members.names theme.catalogs
  free : ∀ entry ∈ theme.catalogs, Json.FloatFree (.object entry.2.entries)
  apart : ∀ locale ∈ Members.names theme.catalogs,
    settings.scan.accepts (Path.parts (Command.catalogPath settings.directory locale)) = false

/-! ### Reading again -/

section

variable {before after : FileTree} {settings : Settings} {all : Bool} {root place : Path} {paths names : List String}
  {examined : List Examined} {catalogs : Catalogs} {rendered : List (String × Text)} {keys : List CodePoints}

theorem Parts.resolved_root (parts : Parts before settings root paths examined catalogs) (linkless : before.Linkless root) :
    before.resolve root = .ok root := by
  have discovered := parts.discovered
  unfold discover at discovered
  obtain ⟨place, resolved, -⟩ := bind_ok discovered
  have here := @Linkless.resolve before root linkless [] (by simp)
  rw [List.append_nil] at here
  rcases here with same | failed
  · exact same
  · rw [failed] at resolved
    cases resolved

/-- The path of a template is told from its place. -/
theorem Parts.parts_inj (parts : Parts before settings root paths examined catalogs) (regular : before.Regular root)
    {path path' : String} (isPath : path ∈ paths) (isPath' : path' ∈ paths) (same : Path.parts path = Path.parts path') :
    path = path' := by
  have resolved := parts.resolved_root regular.linkless
  rw [← (discover_place regular resolved parts.discovered isPath).1, same,
    (discover_place regular resolved parts.discovered isPath').1]

theorem Parts.analysed (parts : Parts before settings root paths examined catalogs) :
    ∀ pair ∈ examined.filterMap Examined.analysed?, Analysed settings.helper pair.1 pair.2 ∧ pair.1.source ∈ paths := by
  intro pair isPair
  obtain ⟨isPaths, results⟩ := parts.each.results
  have isIn := mem_analysed.mp isPair
  exact ⟨(examine_analysed (results _ isIn)).2.1, isPaths ▸ List.mem_map_of_mem isIn⟩

theorem Parts.distinct (parts : Parts before settings root paths examined catalogs) (named : before.isNamed = true) :
    ((examined.filterMap Examined.analysed?).map fun pair => pair.1.source).Nodup := by
  have ascending := discover_ascending named parts.discovered
  have sources := analysed_sublist examined
  rw [parts.each.results.1] at sources
  exact sources.nodup (ascending.imp fun less => less.ne)

namespace Updatable

variable (updatable : Updatable settings all before (ofParts root examined catalogs))
  (parts : Parts before settings root paths examined catalogs)

include updatable in
theorem regular_root : before.Regular root := by
  have regular := updatable.regular
  rwa [ofParts_root] at regular

include updatable parts in
/-- A path of a theme leads to the place that it names. -/
theorem inside_eq {relative : String} {target : Path} (within : before.inside root relative = .ok target) :
    target = root ++ Path.parts relative ∧ ∀ name ∈ Path.parts relative, name ≠ up ∧ ¬Path.isIdle name = true := by
  have regular := updatable.regular_root
  obtain ⟨same, notUp⟩ := regular.linkless.inside_eq (parts.resolved_root regular.linkless) within
  exact ⟨same, parts_proper notUp⟩

include updatable parts in
theorem exists_files : ∃ place names, CatalogFiles before root settings.directory place names catalogs ∧
    place = root ++ Path.parts settings.directory := by
  obtain ⟨place, names, files⟩ := exists_catalogFiles updatable.regular_root.named parts.known updatable.filled
  exact ⟨place, names, files, (updatable.inside_eq parts files.within).1⟩

include updatable in
/-- No template is a catalog. -/
theorem apart_catalog (parts : Parts before settings root paths examined catalogs) {path locale : String}
    (isPath : path ∈ paths) (isLocale : locale ∈ Members.names catalogs) :
    root ++ Path.parts (Command.catalogPath settings.directory locale) ≠ root ++ Path.parts path := by
  intro same
  have regular := updatable.regular_root
  obtain ⟨-, accepted, -⟩ :=
    discover_place regular (parts.resolved_root regular.linkless) parts.discovered isPath
  have refused := updatable.apart locale isLocale
  rw [List.append_cancel_left same, accepted] at refused
  cases refused

end Updatable

theorem CatalogFiles.target {directory : String} (files : CatalogFiles before root directory place names catalogs)
    (isPlace : place = root ++ Path.parts directory) {locale : String} (isLocale : locale ∈ Members.names catalogs) :
    root ++ Path.parts (Command.catalogPath directory locale) = place ++ [Catalog.fileName locale] := by
  rw [Command.catalogPath, Path.parts_slash directory _ (files.isProper isLocale), isPlace, List.append_assoc]

/-- A file that is read at the place where it stands. -/
structure StandsAt (tree : FileTree) (place : Path) (bytes : ByteArray) : Prop where
  located : tree.locate place = .ok place
  stands : tree.find place = .ok (.file bytes)
  read : tree.read place = .ok bytes

namespace Updatable

variable (updatable : Updatable settings all before (ofParts root examined catalogs))
  (parts : Parts before settings root paths examined catalogs)

include updatable parts

theorem template_stands {template : Template} {findings : Findings}
    (isAnalysed : (examine before root settings.helper template.source).result = .ok (.analysed template findings)) :
    before.inside root template.source = .ok (root ++ Path.parts template.source) ∧ ∃ bytes,
      StandsAt before (root ++ Path.parts template.source) bytes ∧ Encoding.decode? bytes = some template.text := by
  obtain ⟨target, bytes, within, read, decoded⟩ := examine_contents isAnalysed
  obtain ⟨rfl, proper⟩ := updatable.inside_eq parts within
  obtain ⟨located, stands⟩ := updatable.regular_root.linkless.stands proper read
  exact ⟨within, bytes, ⟨located, stands, read⟩, decoded⟩

theorem catalog_stands {locale : String} (isLocale : locale ∈ Members.names catalogs) :
    ∃ bytes, StandsAt before (root ++ Path.parts (Command.catalogPath settings.directory locale)) bytes := by
  obtain ⟨place, names, files, isPlace⟩ := updatable.exists_files parts
  obtain ⟨entry, isEntry, rfl⟩ := List.mem_map.mp isLocale
  obtain ⟨bytes, read⟩ := files.stands.read isEntry
  rw [files.target isPlace isLocale]
  have proper : ∀ name ∈ Path.parts settings.directory ++ [Catalog.fileName entry.1], name ≠ up ∧ ¬Path.isIdle name = true := by
    intro name isName
    rcases List.mem_append.mp isName with inDirectory | this
    · exact (updatable.inside_eq parts files.within).2 name inDirectory
    · rw [List.mem_singleton.mp this]
      exact (files.isProper isLocale).2
  rw [isPlace, List.append_assoc] at read ⊢
  obtain ⟨located, stands⟩ := updatable.regular_root.linkless.stands proper read
  exact ⟨bytes, located, stands, read⟩

end Updatable

theorem Parts.isRendered (parts : Parts before settings root paths examined catalogs) (named : before.isNamed = true)
    (done : renderChanges (ofParts root examined catalogs).templates
      ((ofParts root examined catalogs).findings.texts.changes all) settings.helper = .ok rendered) :
    Rendered ((textsOf (examined.filterMap Examined.analysed?)).changes all) settings.helper
      ((examined.filterMap Examined.analysed?).map Prod.fst) rendered := by
  have sources : (((examined.filterMap Examined.analysed?).map Prod.fst).map Template.source).Nodup := by
    rw [List.map_map]
    exact parts.distinct named
  rw [ofParts_templates, ofParts_findings] at done
  obtain ⟨rendered', done', h⟩ | ⟨_, _, _, _, _, _, failed⟩ := renderChanges_runs
    ((textsOf (examined.filterMap Examined.analysed?)).changes all) settings.helper sources
  · obtain rfl := Except.ok.inj (done'.symm.trans done)
    exact h
  · cases failed.symm.trans done

/-- Every new text belongs to a template that was analysed. -/
theorem Parts.mem_rendered (parts : Parts before settings root paths examined catalogs)
    (h : Rendered ((textsOf (examined.filterMap Examined.analysed?)).changes all) settings.helper
      ((examined.filterMap Examined.analysed?).map Prod.fst) rendered)
    {path : String} (isName : path ∈ Members.names rendered) :
    path ∈ paths ∧ ∃ template findings, .analysed template findings ∈ examined ∧ template.source = path := by
  have isSource := h.sublist.subset isName
  rw [List.map_map] at isSource
  obtain ⟨pair, isPair, rfl⟩ := List.mem_map.mp isSource
  exact ⟨(parts.analysed pair isPair).2, pair.1, pair.2, mem_analysed.mp isPair, rfl⟩

theorem Parts.rendered_distinct (parts : Parts before settings root paths examined catalogs)
    (named : before.isNamed = true) (h : Rendered ((textsOf (examined.filterMap Examined.analysed?)).changes all)
      settings.helper ((examined.filterMap Examined.analysed?).map Prod.fst) rendered) :
    (Members.names rendered).Nodup := by
  refine h.sublist.nodup ?_
  rw [List.map_map]
  exact parts.distinct named

/-! ### The writes are done -/

theorem mem_updateWrites {directory : String} {write : Write} :
    write ∈ updateWrites root directory rendered catalogs keys ↔
      (∃ pair ∈ rendered, ⟨root ++ Path.parts pair.1, .ok pair.2.points⟩ = write) ∨
      ∃ entry ∈ catalogs, ⟨root ++ Path.parts (Command.catalogPath directory entry.2.locale),
        (entry.2.update ⟨keys, []⟩).catalog.serialize⟩ = write := by
  simp only [updateWrites, templateWrites, catalogWrites, List.mem_append, List.mem_map, exists_exists_and_eq_and]
  rfl

theorem targets_updateWrites {directory : String} (kept : ∀ entry ∈ catalogs, Kept entry) :
    (updateWrites root directory rendered catalogs keys).map Write.target =
      (Members.names rendered).map (fun path => root ++ Path.parts path) ++
        (Members.names catalogs).map fun locale => root ++ Path.parts (Command.catalogPath directory locale) := by
  rw [updateWrites, templateWrites, catalogWrites, List.map_append, List.map_map, List.map_map, List.map_map,
    Members.names, Members.names, List.map_map, List.map_map]
  refine congrArg (_ ++ ·) (List.map_congr_left fun entry isEntry => ?_)
  change root ++ Path.parts (Command.catalogPath directory entry.2.locale) = _
  rw [(kept entry isEntry).1]
  rfl

namespace Updatable

variable (updatable : Updatable settings all before (ofParts root examined catalogs))
  (parts : Parts before settings root paths examined catalogs)
  (h : Rendered ((textsOf (examined.filterMap Examined.analysed?)).changes all) settings.helper
    ((examined.filterMap Examined.analysed?).map Prod.fst) rendered)

include updatable parts h

theorem lands : ∀ write ∈ updateWrites root settings.directory rendered catalogs keys, write.Lands before := by
  intro write isWrite
  rcases mem_updateWrites.mp isWrite with ⟨pair, isPair, rfl⟩ | ⟨entry, isEntry, rfl⟩
  · obtain ⟨-, template, findings, isIn, same⟩ := parts.mem_rendered h (List.mem_map_of_mem isPair)
    have isAnalysed := parts.each.results.2 (.analysed template findings) isIn
    obtain ⟨-, bytes, standsAt, -⟩ := updatable.template_stands parts isAnalysed
    rw [same] at standsAt
    exact ⟨standsAt.located, bytes, standsAt.stands⟩
  · have kept := (readCatalogs_kept parts.known entry isEntry).1
    obtain ⟨bytes, standsAt⟩ := updatable.catalog_stands parts (List.mem_map_of_mem isEntry)
    rw [← kept] at standsAt
    exact ⟨standsAt.located, bytes, standsAt.stands⟩

theorem targets_distinct : ((updateWrites root settings.directory rendered catalogs keys).map Write.target).Nodup := by
  have regular := updatable.regular_root
  rw [targets_updateWrites (readCatalogs_kept parts.known)]
  refine List.nodup_append.mpr ⟨?_, ?_, ?_⟩
  · refine (parts.rendered_distinct regular.named h).map_on fun path isPath path' isPath' same => ?_
    exact parts.parts_inj regular (parts.mem_rendered h isPath).1 (parts.mem_rendered h isPath').1
      (List.append_cancel_left same)
  · obtain ⟨place, names, files, isPlace⟩ := updatable.exists_files parts
    have once := files.stands.fileNames_sublist.nodup files.distinct
    rw [List.map_congr_left fun locale isLocale => files.target isPlace isLocale]
    refine (once.of_map _).map_on ?_
    intro locale isLocale locale' isLocale' same
    have fileNames := List.singleton_inj.mp (List.append_cancel_left same)
    exact List.inj_on_of_nodup_map once isLocale isLocale' fileNames
  · intro target isTemplate target' isCatalog same
    obtain ⟨path, isPath, rfl⟩ := List.mem_map.mp isTemplate
    obtain ⟨locale, isLocale, rfl⟩ := List.mem_map.mp isCatalog
    exact updatable.apart_catalog parts (parts.mem_rendered h isPath).1 isLocale same.symm

variable (performed : Performed (updateWrites root settings.directory rendered catalogs keys) before after)
include performed

/-- A file of the theme that is neither that of a new text nor that of a catalog is as before. -/
theorem read_kept {path : String} (isPath : path ∈ paths) (notRendered : path ∉ Members.names rendered) {target : Path}
    (within : before.inside root path = .ok target) : after.read target = before.read target := by
  have regular := updatable.regular_root
  obtain ⟨rfl, proper⟩ := updatable.inside_eq parts within
  refine performed.read_kept fun place located write isWrite same => ?_
  obtain rfl := regular.linkless.locate_eq proper located
  rcases mem_updateWrites.mp isWrite with ⟨pair, isPair, rfl⟩ | ⟨entry, isEntry, rfl⟩
  · have isName : pair.1 ∈ Members.names rendered := List.mem_map_of_mem isPair
    have samePath := parts.parts_inj regular (parts.mem_rendered h isName).1 isPath (List.append_cancel_left same)
    exact notRendered (samePath ▸ isName)
  · have kept := (readCatalogs_kept parts.known entry isEntry).1
    refine updatable.apart_catalog parts isPath (List.mem_map_of_mem isEntry) ?_
    rw [← kept]
    exact same

/-- A template that was analysed is analysed again. -/
theorem analysed_again {template : Template} {findings : Findings} (isIn : .analysed template findings ∈ examined) :
    ∃ new, (examine after root settings.helper template.source).result = .ok new ∧
      Reexamined settings.helper all rendered (.analysed template findings) new := by
  have isAnalysed := parts.each.results.2 (.analysed template findings) isIn
  obtain ⟨within, bytes, standsAt, decoded⟩ := updatable.template_stands parts isAnalysed
  have isPair : (template, findings) ∈ examined.filterMap Examined.analysed? := mem_analysed.mpr isIn
  have each pair isPair := (parts.analysed pair isPair).1
  have isPath := (parts.analysed _ isPair).2
  have rereadable : findings.texts.translatable all ≠ [] → Rereadable all template findings := by
    refine updatable.rereadable template ?_ findings (each (template, findings) isPair)
    rw [ofParts_templates]
    exact List.mem_map_of_mem isPair
  obtain ⟨⟨template', findings'⟩, again⟩ := exists_reanalysed updatable.isName updatable.ordinary each
    (parts.distinct updatable.regular_root.named) isPair rereadable h
  have source : template'.source = template.source := again.source
  have text : template'.text = (Members.get? rendered template.source).getD template.text := again.text
  refine ⟨.analysed template' findings', ?_, .analysed again⟩
  have within' : after.inside root template'.source = .ok (root ++ Path.parts template.source) := by
    rw [source, FileTree.inside_alike performed.alike, within]
  rw [← source]
  cases found : Members.get? rendered template.source with
  | none =>
    rw [found, Option.getD_none] at text
    have notRendered : template.source ∉ Members.names rendered := by
      intro isName
      obtain ⟨pair, isPair', same⟩ := List.mem_map.mp isName
      have once := parts.rendered_distinct updatable.regular_root.named h
      rw [← same, Members.get?_of_mem once isPair'] at found
      cases found
    have read := updatable.read_kept parts h performed isPath notRendered within
    rw [standsAt.read] at read
    exact examine_of_contents within' read (text ▸ decoded) again.analysed
  | some contents =>
    rw [found, Option.getD_some] at text
    have isWrite : ⟨root ++ Path.parts template.source, .ok contents.points⟩ ∈
        updateWrites root settings.directory rendered catalogs keys :=
      mem_updateWrites.mpr (.inl ⟨(template.source, contents), Members.mem_of_get? found, rfl⟩)
    obtain ⟨_, encoded, read⟩ := performed.read_written isWrite standsAt.located standsAt.read rfl
    obtain rfl := Except.ok.inj ((Encoding.encodePoints_points contents).symm.trans encoded)
    exact examine_of_contents within' read (text ▸ Encoding.decode?_encode contents) again.analysed

/-- A template that could not be read cannot be read for the same reason. -/
theorem failed_again {failure : Failure} (isIn : .failed failure ∈ examined) :
    (examine after root settings.helper failure.path).result = .ok (.failed failure) := by
  obtain ⟨isPaths, results⟩ := parts.each.results
  have isPath : failure.path ∈ paths := isPaths ▸ List.mem_map_of_mem (f := Examined.path) isIn
  have notRendered : failure.path ∉ Members.names rendered := by
    intro isName
    obtain ⟨-, template, findings, isAnalysed, same⟩ := parts.mem_rendered h isName
    cases parts.each.unique isAnalysed isIn same
  have same : (after.inside root failure.path >>= after.read) = (before.inside root failure.path >>= before.read) := by
    rw [FileTree.inside_alike performed.alike]
    cases within : before.inside root failure.path with
    | error fault => rfl
    | ok target => exact updatable.read_kept parts h performed isPath notRendered within
  have failed := results (.failed failure) isIn
  unfold examine at failed ⊢
  rw [same]
  exact failed

theorem exists_reexamined : ∃ new, ExaminedAll after root settings.helper paths new ∧
    List.Forall₂ (Reexamined settings.helper all rendered) examined new := by
  obtain ⟨isPaths, results⟩ := parts.each.results
  have each : ∀ old ∈ examined, ∃ new, (examine after root settings.helper old.path).result = .ok new ∧
      Reexamined settings.helper all rendered old new := by
    intro old isIn
    cases old with
    | analysed template findings => exact updatable.analysed_again parts h performed isIn
    | failed failure => exact ⟨_, updatable.failed_again parts h performed isIn, .failed failure⟩
  obtain ⟨new, again⟩ := exists_forall₂ each
  refine ⟨new, ?_, again.imp fun _ _ => And.right⟩
  unfold ExaminedAll
  rw [← isPaths, List.map_map, ← List.forall₂_eq_eq_eq, List.forall₂_map_left_iff, List.forall₂_map_right_iff]
  exact again.imp fun _ _ => And.left

omit h in
theorem exists_renewed : ∃ new, readCatalogs after root settings.directory = .ok new ∧
    List.Forall₂ (Renewed ⟨keys, []⟩) catalogs new := by
  obtain ⟨place, names, files, isPlace⟩ := updatable.exists_files parts
  obtain ⟨new, files', renewed⟩ := files.renewed performed.alike updatable.free fun entry isEntry contents serialized => by
    have isLocale : entry.1 ∈ Members.names catalogs := List.mem_map_of_mem isEntry
    have kept := (readCatalogs_kept parts.known entry isEntry).1
    obtain ⟨bytes, standsAt⟩ := updatable.catalog_stands parts isLocale
    have isWrite : ⟨root ++ Path.parts (Command.catalogPath settings.directory entry.1), .ok contents⟩ ∈
        updateWrites root settings.directory rendered catalogs keys := by
      refine mem_updateWrites.mpr (.inr ⟨entry, isEntry, ?_⟩)
      rw [serialized, kept]
    rw [← files.target isPlace isLocale]
    exact performed.read_written isWrite standsAt.located standsAt.read rfl
  exact ⟨new, files'.read, renewed⟩

end Updatable

end

/-- A theme after an update: the same templates cannot be read, the texts that were put into calls of the helper have
become keys, and every catalog has them all. -/
structure Updated (all : Bool) (old new : Theme) : Prop where
  failures : new.failures = old.failures
  becomeKeys : old.findings.BecomeKeys all new.findings
  locales : Members.names new.catalogs = Members.names old.catalogs
  known : ∀ entry ∈ new.catalogs, ∀ text ∈ old.findings.texts.translatable all, text.points ∈ entry.2.keys

theorem mem_keys_update {catalog : Catalog} {keys : List CodePoints} {key : CodePoints} (isKey : key ∈ keys) :
    key ∈ Members.names (catalog.update ⟨keys, []⟩).catalog.entries := by
  rw [Catalog.update_eq, Catalog.names_append, Catalog.names_blanks, List.mem_append]
  by_cases present : key ∈ catalog.keys
  · left
    obtain ⟨member, isIn, rfl⟩ := List.mem_map.mp present
    exact List.mem_map_of_mem (List.mem_filter.mpr ⟨isIn, by simp⟩)
  · exact .inr (List.mem_filter.mpr ⟨List.mem_eraseDups.mpr isKey, by simpa using present⟩)

/-- Where the writes of an update are done, the theme can be read again. -/
theorem Updatable.reread {before after : FileTree} {settings : Settings} {all : Bool} {root : Path}
    {paths : List String} {examined : List Examined} {catalogs : Catalogs} {rendered : List (String × Text)}
    (updatable : Updatable settings all before (ofParts root examined catalogs))
    (parts : Parts before settings root paths examined catalogs)
    (done : renderChanges (ofParts root examined catalogs).templates
      ((ofParts root examined catalogs).findings.texts.changes all) settings.helper = .ok rendered)
    (performed : Performed (updateWrites root settings.directory rendered catalogs
      (((ofParts root examined catalogs).findings.texts.translatable all).map Text.points)) before after) :
    ∃ examined' catalogs', Parts after settings root paths examined' catalogs' ∧
      Updated all (ofParts root examined catalogs) (ofParts root examined' catalogs') := by
  have h := parts.isRendered updatable.regular_root.named done
  obtain ⟨examined', each, again⟩ := updatable.exists_reexamined parts h performed
  obtain ⟨catalogs', known, renewed⟩ := updatable.exists_renewed parts performed
  obtain ⟨failures, analysed⟩ := reexamined_parts again
  refine ⟨examined', catalogs', ⟨?_, ?_, each, known⟩, ?_, ?_, ?_, ?_⟩
  · rw [FileTree.resolve_alike performed.alike, parts.resolved]
  · rw [discover_alike performed.alike, parts.discovered]
  · rw [ofParts_failures, ofParts_failures, failures]
  · rw [ofParts_findings, ofParts_findings]
    refine .mergeAll ?_
    rw [List.forall₂_map_left_iff, List.forall₂_map_right_iff]
    exact analysed.imp fun _ _ => Reanalysed.becomeKeys
  · change Members.names catalogs' = Members.names catalogs
    rw [Members.names, Members.names, ← List.forall₂_eq_eq_eq, List.forall₂_map_left_iff, List.forall₂_map_right_iff]
    exact renewed.flip.imp fun _ _ => And.left
  · intro entry isEntry text isText
    obtain ⟨old, -, entries⟩ := Renewed.of_mem renewed isEntry
    rw [Catalog.keys, entries]
    exact mem_keys_update (List.mem_map_of_mem isText)

end Theme

end Phrasebook
