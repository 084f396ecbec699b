import Ridl.Resolve.Imports

/-!
# Import Cycles

A loaded package leads to each package that it imports, and the reports are about
the cycles of that relation: the search from the package of a line is complete, since
every step leads to another loaded package, of which there are finitely many. What a
package of a remote unit may import is of its own unit, of the unit that the longest
key names, or a member of the workspace.

## Theorems

* `visiblePackage_spec`: What is visible is loaded, by its name, and pinned where it is
  of another unit.
* `mem_memberEdges`: The edges are the packages that the files import.
* `detectCycles_eq`: The search reports the lines that close a cycle.
-/

namespace Ridl

namespace Resolve

open Syntax (GreenBuilder SyntaxNode SyntaxToken SyntaxKind supportChild FileId Severity
  Diagnostic byteLen)
open Contract (TextRange)

/-! ### What a path names -/

section Paths

variable {Package : Type} [DecidableEq Package] {db : Database Package} {ws : Workspace Package}

/-- The longest key of a map that matches a path is one with the URL. -/
def LongestKey (map : ImportMap) (path url : Text) : Prop :=
  ∃ key, (key, url) ∈ map ∧ keyMatches key path = true ∧
    ∀ entry ∈ map, keyMatches entry.1 path = true → byteLen entry.1 ≤ byteLen key

/-- The URL pins a path in a package: by the longest key of the package itself, or, in
    a member without a key for the path, of the workspace. -/
def Pinned (db : Database Package) (ws : Workspace Package) (pkg : Package) (path url : Text) :
    Prop :=
  LongestKey (db.imports pkg) path url ∨
    db.origin pkg = .workspaceMember ∧
      (∀ entry ∈ db.imports pkg, keyMatches entry.1 path = false) ∧ LongestKey ws.imports path url

variable {map : ImportMap} {path : Text}

theorem maxByLength_spec {entry : Text × Text} (h : maxByLength map = some entry) :
    entry ∈ map ∧ ∀ other ∈ map, byteLen other.1 ≤ byteLen entry.1 := by
  induction map generalizing entry with
  | nil => cases h
  | cons first rest ih =>
      rw [maxByLength] at h
      cases hrest : maxByLength rest with
      | none =>
          rw [hrest] at h
          cases h
          refine ⟨List.mem_cons_self, fun other hother => ?_⟩
          rcases List.mem_cons.mp hother with rfl | hother
          · exact Nat.le_refl _
          · cases rest with
            | nil => cases hother
            | cons second rest =>
                rw [maxByLength] at hrest
                split at hrest
                · cases hrest
                · split at hrest <;> cases hrest
      | some last =>
          rw [hrest] at h
          rcases ih hrest with ⟨hmem, hmax⟩
          dsimp only at h
          split at h
          · rename_i hle
            cases h
            refine ⟨List.mem_cons_of_mem _ hmem, fun other hother => ?_⟩
            rcases List.mem_cons.mp hother with rfl | hother
            · exact hle
            · exact hmax other hother
          · rename_i hgt
            cases h
            refine ⟨List.mem_cons_self, fun other hother => ?_⟩
            rcases List.mem_cons.mp hother with rfl | hother
            · exact Nat.le_refl _
            · have hle := hmax other hother
              omega

theorem maxByLength_eq_none : maxByLength map = none ↔ map = [] := by
  cases map with
  | nil => exact ⟨fun _ => rfl, fun _ => rfl⟩
  | cons first rest =>
      refine ⟨fun h => ?_, nofun⟩
      rw [maxByLength] at h
      split at h
      · cases h
      · split at h <;> cases h

theorem longestKey_of_eq_some {url : Text}
    (h : longestImportPrefix map path = some url) : LongestKey map path url := by
  rcases Option.map_eq_some_iff.mp h with ⟨⟨key, _⟩, hmax, rfl⟩
  rcases maxByLength_spec hmax with ⟨hmem, hlongest⟩
  rcases List.mem_filter.mp hmem with ⟨hentry, hkey⟩
  exact ⟨key, hentry, hkey, fun entry hentry hmatch =>
    hlongest entry (List.mem_filter.mpr ⟨hentry, hmatch⟩)⟩

theorem not_matches_of_eq_none
    (h : longestImportPrefix map path = none) : ∀ entry ∈ map, keyMatches entry.1 path = false := by
  intro entry hentry
  have hnil := maxByLength_eq_none.mp (Option.map_eq_none_iff.mp h)
  rw [List.filter_eq_nil_iff] at hnil
  exact Bool.eq_false_iff.mpr (hnil entry hentry)

omit [DecidableEq Package] in
theorem pinned_of_eq_some {pkg : Package} {url : Text}
    (h : pinnedUrl db ws pkg path = some url) : Pinned db ws pkg path url := by
  unfold pinnedUrl at h
  rcases Option.or_eq_some_iff.mp h with hown | ⟨hnone, hws⟩
  · exact .inl (longestKey_of_eq_some hown)
  · split at hws
    · rename_i horigin
      exact .inr ⟨horigin, not_matches_of_eq_none hnone, longestKey_of_eq_some hws⟩
    · cases hws

omit [DecidableEq Package] in
/-- What a path names is a loaded package of that name. One of a remote unit is of the
    unit of the package, or of the one that a key pins. -/
theorem visiblePackage_spec {pkg target : Package}
    (h : visiblePackage db ws pkg path = some target) :
    target ∈ ws.packages ∧ db.name target = path ∧
      ∀ url, db.origin target = .remote url →
        db.origin pkg = .remote url ∨ Pinned db ws pkg path url := by
  unfold visiblePackage resolveSource at h
  split at h
  · rename_i member hmember
    cases h
    rcases Option.filter_eq_some_iff.mp hmember with ⟨hfind, hunit⟩
    have hfind' : ws.packages.find? (fun p => db.name p = path) = some target := hfind
    have hname := List.find?_some hfind'
    rw [decide_eq_true_eq] at hname
    refine ⟨List.mem_of_find?_eq_some hfind, hname, fun url horigin => .inl ?_⟩
    rw [sameUnit, horigin] at hunit
    exact (of_decide_eq_true hunit).symm
  · split at h
    · rename_i url hurl
      have hfind : ws.packages.find? (fun candidate =>
          db.name candidate = path ∧ db.origin candidate = .remote url) = some target := h
      have hsome := List.find?_some hfind
      rw [decide_eq_true_eq] at hsome
      refine ⟨List.mem_of_find?_eq_some hfind, hsome.1, fun url' horigin => .inr ?_⟩
      rw [hsome.2] at horigin
      cases horigin
      exact pinned_of_eq_some hurl
    · cases h

end Paths

/-! ### The lines of a package -/

section Lines

variable {Package : Type} [DecidableEq Package] (db : Database Package) (ws : Workspace Package)

def Imports (pkg : Package) (path : Text) : Prop :=
  ∃ file ∈ db.files pkg, ∃ line ∈ fileImports file.source, ∃ symbol, line.2 = .named path symbol

variable {pkg : Package}

theorem mem_memberEdges {target : Package} :
    target ∈ memberEdges db ws pkg ↔
      target ≠ pkg ∧ ∃ path, Imports db pkg path ∧ visiblePackage db ws pkg path = some target := by
  unfold memberEdges Imports
  simp only [List.mem_flatMap, List.mem_filterMap]
  constructor
  · rintro ⟨file, hfile, line, hline, h⟩
    split at h
    · rename_i path symbol hshape
      rcases Option.filter_eq_some_iff.mp h with ⟨hvisible, hne⟩
      exact ⟨of_decide_eq_true hne, path, ⟨file, hfile, line, hline, symbol, hshape⟩, hvisible⟩
    · cases h
  · rintro ⟨hne, path, ⟨file, hfile, line, hline, symbol, hshape⟩, hvisible⟩
    refine ⟨file, hfile, line, hline, ?_⟩
    rw [hshape]
    exact Option.filter_eq_some_iff.mpr ⟨hvisible, decide_eq_true hne⟩

theorem length_internPaths (seen paths : List Text) :
    (internPaths seen paths).length = paths.length := by
  induction paths generalizing seen with
  | nil => rfl
  | cons path paths ih =>
      rw [internPaths]
      split <;> rw [List.length_cons, List.length_cons, ih]

theorem snd_zip_fileIds (files : List InputFile) :
    ((fileIds files).zip files).map Prod.snd = files := by
  refine List.map_snd_zip ?_
  rw [fileIds, length_internPaths, List.length_map]

omit [DecidableEq Package] in
/-- The records of a package are its named lines, each resolved. -/
theorem exists_record {target : Package} :
    (∃ record ∈ (collectImports db ws pkg).1, record.target = some target) ↔
      ∃ path, Imports db pkg path ∧ visiblePackage db ws pkg path = some target := by
  unfold collectImports Imports
  simp only [List.mem_filterMap, List.mem_flatMap, List.mem_map]
  constructor
  · rintro ⟨record, ⟨_, ⟨entry, hentry, line, hline, rfl⟩, h⟩, htarget⟩
    dsimp only at h
    split at h
    · rename_i path symbol hshape
      cases h
      have hfile : entry.2 ∈ db.files pkg := by
        rw [← snd_zip_fileIds (db.files pkg)]
        exact List.mem_map_of_mem hentry
      exact ⟨path, ⟨entry.2, hfile, line, hline, symbol, hshape⟩, htarget⟩
    · cases h
  · rintro ⟨path, ⟨file, hfile, line, hline, symbol, hshape⟩, hvisible⟩
    rw [← snd_zip_fileIds (db.files pkg)] at hfile
    rcases List.mem_map.mp hfile with ⟨entry, hentry, rfl⟩
    refine ⟨importRecord db ws pkg entry.1 line.1 path symbol,
      ⟨_, ⟨entry, hentry, line, hline, rfl⟩, ?_⟩, hvisible⟩
    dsimp only
    rw [hshape]

theorem memberEdges_subset : memberEdges db ws pkg ⊆ ws.packages := by
  intro target htarget
  rcases (mem_memberEdges db ws).mp htarget with ⟨-, path, -, hvisible⟩
  exact (visiblePackage_spec hvisible).1

end Lines

/-! ### Cycles -/

section Cycles

open Relation (TransGen)

variable {Package : Type} [DecidableEq Package] (db : Database Package) (ws : Workspace Package)

/-- One package imports another one. -/
abbrev Leads : Package → Package → Prop := Library.Graph.Edge (memberEdges db ws)

/-- An import names a package that leads back. -/
def ClosesCycle (pkg : Package) (record : ImportRecord Package) : Prop :=
  ∃ target, record.target = some target ∧ target ≠ pkg ∧ TransGen (Leads db ws) target pkg

variable {db ws}

open Classical in
theorem detectCycles_eq {fuel : Nat} (hfuel : ws.packages.length < fuel) (pkg : Package)
    (records : List (ImportRecord Package))
    (hloaded : ∀ record ∈ records, ∀ target ∈ record.target, target ∈ ws.packages) :
    detectCycles db ws fuel pkg records =
      some ((records.filter fun record => ClosesCycle db ws pkg record).map
        (cycleDiagnostic db pkg)) := by
  induction records with
  | nil => rfl
  | cons record records ih =>
      have hrest := ih fun other hother => hloaded other (List.mem_cons_of_mem _ hother)
      have hskip (hnot : ¬ ClosesCycle db ws pkg record) :
          detectCycles db ws fuel pkg records =
            some (((record :: records).filter fun record => ClosesCycle db ws pkg record).map
              (cycleDiagnostic db pkg)) := by
        rw [List.filter_cons_of_neg (by simpa using hnot), hrest]
      rw [detectCycles]
      cases htarget : record.target with
      | none =>
          refine hskip ?_
          rintro ⟨target, h, -⟩
          rw [htarget] at h
          cases h
      | some target =>
          have honly : ∀ {other}, record.target = some other → other = target := by
            intro other h
            rw [htarget] at h
            exact (Option.some.inj h).symm
          dsimp only
          by_cases hself : target = pkg
          · rw [if_pos hself]
            refine hskip ?_
            rintro ⟨other, h, hne, -⟩
            exact hne (honly h ▸ hself)
          · rw [if_neg hself]
            have hmem := hloaded record List.mem_cons_self target htarget
            have hsearch : ∃ found visited,
                Library.Graph.search (memberEdges db ws) pkg fuel target [] =
                  some (found, visited) ∧
                (found = true ↔ TransGen (Leads db ws) target pkg) :=
              Library.Graph.search_iff (fun node _ => memberEdges_subset db ws) hfuel hmem
            rcases hsearch with ⟨found, visited, hrun, hfound⟩
            rw [reaches, hrun]
            cases found with
            | true =>
                have hcloses : ClosesCycle db ws pkg record :=
                  ⟨target, htarget, hself, hfound.mp rfl⟩
                rw [List.filter_cons_of_pos (by simpa using hcloses), List.map_cons, hrest]
                rfl
            | false =>
                refine hskip ?_
                rintro ⟨other, h, -, hreach⟩
                exact absurd (hfound.mpr (honly h ▸ hreach)) Bool.false_ne_true

open Classical in
theorem cycleReports_eq {fuel : Nat} (hfuel : ws.packages.length < fuel) (pkg : Package) :
    cycleReports db ws fuel pkg =
      some (((collectImports db ws pkg).1.filter fun record => ClosesCycle db ws pkg record).map
        (cycleDiagnostic db pkg)) := by
  refine detectCycles_eq hfuel pkg _ fun record hrecord target htarget => ?_
  rcases (exists_record db ws).mp ⟨record, hrecord, htarget⟩ with ⟨path, -, hvisible⟩
  exact (visiblePackage_spec hvisible).1

theorem exists_closesCycle {pkg : Package} (h : TransGen (Leads db ws) pkg pkg) :
    ∃ record ∈ (collectImports db ws pkg).1, ClosesCycle db ws pkg record := by
  -- The cycle starts with an import, and the rest of it leads back.
  have hfirst : ∃ next, next ∈ memberEdges db ws pkg ∧ TransGen (Leads db ws) next pkg := by
    rcases TransGen.head'_iff.mp h with ⟨next, hedge, hrest⟩
    rcases Relation.reflTransGen_iff_eq_or_transGen.mp hrest with heq | hreach
    · exact absurd heq.symm ((mem_memberEdges db ws).mp hedge).1
    · exact ⟨next, hedge, hreach⟩
  rcases hfirst with ⟨next, hedge, hreach⟩
  rcases (mem_memberEdges db ws).mp hedge with ⟨hne, hpath⟩
  rcases (exists_record db ws).mpr hpath with ⟨record, hrecord, htarget⟩
  exact ⟨record, hrecord, next, htarget, hne, hreach⟩

open Classical in
/-- How import cycles are reported. The search ends, and it reports the imports whose
    package leads back to the importing one. Without a report in any loaded package
    there is no cycle, and each package on a cycle has a report. What a package
    imports is a loaded package of the name in the path, and one of a remote unit is
    of the unit that the importing package is in, or of the one whose URL is that of
    the longest key: of the package itself, or, for a member that has none, of the
    workspace. -/
theorem import_cycles (db : Database Package) (ws : Workspace Package) {fuel : Nat}
    (hfuel : ws.packages.length < fuel) :
    (∀ pkg, cycleReports db ws fuel pkg =
        some (((collectImports db ws pkg).1.filter fun record =>
          ClosesCycle db ws pkg record).map (cycleDiagnostic db pkg))) ∧
      ((∀ pkg ∈ ws.packages, cycleReports db ws fuel pkg = some []) →
        ∀ pkg, ¬ TransGen (Leads db ws) pkg pkg) ∧
      (∀ pkg, TransGen (Leads db ws) pkg pkg →
        ∃ report reports, cycleReports db ws fuel pkg = some (report :: reports)) ∧
      ∀ pkg target, Leads db ws pkg target →
        target ≠ pkg ∧ target ∈ ws.packages ∧ Imports db pkg (db.name target) ∧
          ∀ url, db.origin target = .remote url →
            db.origin pkg = .remote url ∨ Pinned db ws pkg (db.name target) url := by
  have hreports : ∀ pkg, TransGen (Leads db ws) pkg pkg →
      ∃ report reports, cycleReports db ws fuel pkg = some (report :: reports) := by
    intro pkg hcycle
    rcases exists_closesCycle hcycle with ⟨record, hrecord, hcloses⟩
    rw [cycleReports_eq hfuel]
    cases hlist : ((collectImports db ws pkg).1.filter fun record =>
        ClosesCycle db ws pkg record).map (cycleDiagnostic db pkg) with
    | nil =>
        rw [List.map_eq_nil_iff, List.filter_eq_nil_iff] at hlist
        exact absurd (decide_eq_true hcloses) (hlist record hrecord)
    | cons report reports => exact ⟨report, reports, rfl⟩
  refine ⟨cycleReports_eq hfuel, fun hnone pkg hcycle => ?_, hreports, ?_⟩
  · have hloaded : pkg ∈ ws.packages := by
      rcases TransGen.tail'_iff.mp hcycle with ⟨last, -, hedge⟩
      exact memberEdges_subset db ws hedge
    rcases hreports pkg hcycle with ⟨report, reports, h⟩
    rw [hnone pkg hloaded] at h
    cases h
  · intro pkg target hedge
    rcases (mem_memberEdges db ws).mp hedge with ⟨hne, path, himports, hvisible⟩
    rcases visiblePackage_spec hvisible with ⟨hloaded, hname, hremote⟩
    rw [hname]
    exact ⟨hne, hloaded, himports, hremote⟩

end Cycles

/-! ### A cycle across the boundary of a remote unit -/

section Boundary

/-- The tree of a text. -/
def sourceOf (text : String) : SyntaxNode :=
  ⟨((Syntax.parse GreenBuilder text.toList .typl).map (·.green)).getD (.node .sourceFile []), 0⟩

/-- A remote package that imports from a member, which imports from it. -/
def boundary : Database Bool where
  name remote := if remote then "veh.common".toList else "app".toList
  files remote :=
    if remote then
      [⟨"common.typl".toList, sourceOf "package veh.common\nimport app.Id\ntype Speed: km/h\n"⟩]
    else
      [⟨"app.typl".toList, sourceOf "package app\nimport veh.common.Speed\ntype Id: integer\n"⟩]
  origin remote := if remote then .remote "v1".toList else .workspaceMember
  imports remote := if remote then [] else [("veh.common".toList, "v1".toList)]

def boundaryWorkspace : Workspace Bool := { packages := [false, true], imports := [] }

theorem boundary_leads : Leads boundary boundaryWorkspace true false ∧
    Leads boundary boundaryWorkspace false true := by
  have h : false ∈ memberEdges boundary boundaryWorkspace true ∧
      true ∈ memberEdges boundary boundaryWorkspace false := by decide +kernel
  exact h

/-- Both sides of the boundary report the cycle. -/
theorem import_cycles_boundary :
    (∃ report reports,
        cycleReports boundary boundaryWorkspace 3 false = some (report :: reports)) ∧
      ∃ report reports,
        cycleReports boundary boundaryWorkspace 3 true = some (report :: reports) := by
  have hreports := (import_cycles boundary boundaryWorkspace (show _ < 3 by decide)).2.2.1
  exact ⟨hreports false (.head boundary_leads.2 (.single boundary_leads.1)),
    hreports true (.head boundary_leads.1 (.single boundary_leads.2))⟩

/-- Packages are of one unit: of the remote unit of one URL, or of the workspace. -/
def OwnUnit {Package : Type} (db : Database Package) (pkg target : Package) : Prop :=
  match db.origin pkg, db.origin target with
  | .remote url, .remote url' => url = url'
  | .remote _, _ => False
  | _, .remote _ => False
  | _, _ => True

/-- A package of a remote unit imports from a member of the workspace, which is not of
    its unit and which no key pins. -/
theorem remote_imports_member :
    ¬ ∀ (db : Database Bool) (ws : Workspace Bool) (pkg target : Bool),
      Leads db ws pkg target →
        OwnUnit db pkg target ∨
          ∃ url, db.origin target = .remote url ∧ Pinned db ws pkg (db.name target) url := by
  intro h
  rcases h boundary boundaryWorkspace true false boundary_leads.1 with hunit | ⟨url, horigin, -⟩
  · exact hunit
  · cases horigin

end Boundary

end Resolve

end Ridl
