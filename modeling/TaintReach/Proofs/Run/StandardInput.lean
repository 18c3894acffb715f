import Mathlib.Data.List.Forall2
import TaintReach.Proofs.Run.Sequential
import TaintReach.Proofs.Script.Naming

/-! The same script from the standard input and from a file.

A file is a page or a script by its extension, a text from the standard input by whether
it names an element of a page anywhere. A script that does not is the same program from
both, if both names lead to the same source map (`Script.readWith_agree`), so the run leaves
the same document. One that does, be it in a string or a comment, is taken for a page, and
the document is that of the scripts in this page: an empty one where there are none
(`standard_input_document`). -/
namespace TaintReach

/-! ### Pages and scripts -/

theorem Path.extension_js (stem : String) : extension (stem ++ ".js") = ".js" := by
  have hreverse : (stem ++ ".js").toList.reverse = 's' :: 'j' :: '.' :: stem.toList.reverse := by
    simp
  have hlength : (stem ++ ".js").length - 3 = stem.toList.length := by
    rw [← String.length_toList, String.toList_append, List.length_append]
    rfl
  unfold extension splitExtension
  simp only [hreverse]
  change String.ofList ((stem ++ ".js").toList.drop ((stem ++ ".js").length - 3)) = ".js"
  rw [hlength, String.toList_append, List.drop_left]
  rfl

namespace Input

/-- The standard input with a text. -/
def standard (text : String) : Input := { content := some text }

theorem isPage_js {i : Input} {stem : String} (hpath : i.path = stem ++ ".js") (text : String) :
    i.isPage text = false := by
  have hne : i.path ≠ "" := by simp [hpath]
  unfold isPage
  rw [if_neg hne, hpath, Path.extension_js]
  decide

theorem pieces_script {i : Input} {text : String} (h : i.isPage text = false) :
    i.pieces text = [⟨i.name, text⟩] := by
  unfold pieces
  rw [h]
  rfl

/-- Scripts that can be read are read in their order. -/
theorem programs_of_read {load : String → Option String} {qs : List Piece} {ps : List Program}
    (h : List.Forall₂ (fun q p => Script.readWith load q.name q.code = .ok p) qs ps) :
    (programs load qs).1 = .ok ps := by
  induction h with
  | nil => rfl
  | cons hq _ ih =>
    unfold programs
    simp only [hq, ih]
    rfl

/-- One script that cannot be read spoils them all. -/
theorem programs_of_unread {load : String → Option String} {qs : List Piece} {q : Piece}
    (hq : q ∈ qs) (h : (Script.readWith load q.name q.code).isOk = false) :
    ∃ name, (programs load qs).1 = .error (.malformed name) := by
  induction qs with
  | nil => cases hq
  | cons r qs ih =>
    unfold programs
    cases hread : Script.readWith load r.name r.code with
    | error e => exact ⟨r.name, rfl⟩
    | ok p =>
      rcases List.mem_cons.mp hq with rfl | hq
      · rw [hread] at h
        cases h
      · obtain ⟨name, hname⟩ := ih hq
        exact ⟨name, by simp only [hname]; rfl⟩

/-- Scripts hang on the files that they name as their maps. -/
theorem programs_congr {load load' : String → Option String} {qs : List Piece}
    (h : ∀ q ∈ qs, ∀ path, Script.SourceMap.location q.name q.code = .file path →
      load path = load' path) : programs load qs = programs load' qs := by
  induction qs with
  | nil => rfl
  | cons q qs ih =>
    unfold programs
    rw [Script.readWith_congr (h q List.mem_cons_self),
      ih fun r hr => h r (List.mem_cons_of_mem q hr)]

theorem analyze_of_programs {load : String → Option String} {i : Input} {text : String}
    {ps : List Program} (h : (programs load (i.pieces text)).1 = .ok ps)
    (endpoints : Walk.Endpoints) :
    (i.analyze load endpoints text).result =
      (scopesOf (ps.flatMap (outcomes endpoints))).mapError (.unanalysable i.name ·) := by
  simp only [analyze, h]

end Input

/-- The text of the file at a path, if it can be read. -/
def Disk.load (d : Disk) (path : String) : Option String := (d.read path).toOption

namespace Run

/-! ### Files of source maps -/

/-- The map that a script names, with its path, if it is a file that can be read. -/
def mapFile? (d : Disk) (p : Input.Piece) : Option (String × String) :=
  match Script.SourceMap.location p.name p.code with
  | .file path => (d.load path).map (path, ·)
  | _ => none

theorem give_mapFiles (d : Disk) (ps : List Input.Piece) :
    give d (mapFiles ps) = ps.filterMap (mapFile? d) := by
  induction ps with
  | nil => rfl
  | cons p ps ih =>
    unfold mapFiles
    rw [(readOnly_mapFiles ps).give_bind, ih, List.filterMap_cons, mapFile?]
    cases Script.SourceMap.location p.name p.code with
    | file path =>
      simp only
      rw [(readOnly_read path).give_bind]
      have hread : give d (Files.read path) = d.read path := rfl
      rw [hread, Disk.load]
      cases d.read path <;> rfl
    | none | inline _ | elsewhere => rfl

/-- What was read beforehand is what the disk holds. -/
theorem lookup_mapFiles {d : Disk} {ps : List Input.Piece} {p : Input.Piece} (hp : p ∈ ps)
    {path : String} (hpath : Script.SourceMap.location p.name p.code = .file path) :
    (give d (mapFiles ps)).lookup path = d.load path := by
  rw [give_mapFiles]
  cases hfound : (ps.filterMap (mapFile? d)).lookup path with
  | some text =>
    obtain ⟨before, after, heq, -⟩ := List.lookup_eq_some_iff.mp hfound
    have hmem : (path, text) ∈ ps.filterMap (mapFile? d) := heq ▸ by simp
    obtain ⟨q, -, hq⟩ := List.mem_filterMap.mp hmem
    unfold mapFile? at hq
    split at hq
    · obtain ⟨text', htext', heq⟩ := Option.map_eq_some_iff.mp hq
      obtain ⟨rfl, rfl⟩ := Prod.mk.inj heq
      exact htext'.symm
    · cases hq
  | none =>
    cases hload : d.load path with
    | none => rfl
    | some text =>
      have hmem : (path, text) ∈ ps.filterMap (mapFile? d) := by
        refine List.mem_filterMap.mpr ⟨p, hp, ?_⟩
        simp only [mapFile?, hpath, hload, Option.map_some]
      have hne := List.lookup_eq_none_iff.mp hfound _ hmem
      simp at hne

/-- An input is analysed with the files that the disk holds. -/
theorem resultOn_of_text {d : Disk} {i : Input} {text : String}
    (htext : give d i.text = .ok text) (endpoints : Walk.Endpoints) :
    resultOn d endpoints i = (i.analyze d.load endpoints text).result := by
  unfold resultOn analyzeInput
  rw [(readOnly_text i).give_bind, htext]
  dsimp only
  rw [(readOnly_mapFiles _).give_bind]
  have hprograms : Input.programs (fun path => (give d (mapFiles (i.pieces text))).lookup path)
      (i.pieces text) = Input.programs d.load (i.pieces text) :=
    Input.programs_congr fun p hp path hpath => lookup_mapFiles hp hpath
  show (i.analyze (fun path => (give d (mapFiles (i.pieces text))).lookup path) endpoints
    text).result = _
  simp only [Input.analyze, hprograms]

/-- An input whose scripts can be read adds the scopes of their programs. -/
theorem resultOn_of_read {d : Disk} {i : Input} {text : String} {ps : List Program}
    (htext : give d i.text = .ok text)
    (hread : List.Forall₂ (fun q p => Script.readWith d.load q.name q.code = .ok p)
      (i.pieces text) ps) (endpoints : Walk.Endpoints) :
    resultOn d endpoints i = (Input.scopesOf (ps.flatMap (Input.outcomes endpoints))).mapError
      (.unanalysable i.name ·) := by
  rw [resultOn_of_text htext, Input.analyze_of_programs (Input.programs_of_read hread)]

/-- A script adds the scopes of its program. -/
theorem resultOn_script {d : Disk} {i : Input} {text : String} {p : Program}
    (htext : give d i.text = .ok text) (hpage : i.isPage text = false)
    (hread : Script.readWith d.load i.name text = .ok p) (endpoints : Walk.Endpoints) :
    resultOn d endpoints i =
      (Input.scopesOf (Input.outcomes endpoints p)).mapError (.unanalysable i.name ·) := by
  have hpiece : List.Forall₂ (fun q p => Script.readWith d.load q.name q.code = .ok p)
      (i.pieces text) [p] := by
    rw [Input.pieces_script hpage]
    exact .cons hread .nil
  rw [resultOn_of_read htext hpiece, List.flatMap_singleton]

/-- An input with a script that cannot be read adds nothing. -/
theorem resultOn_of_unread {d : Disk} {i : Input} {text : String} {q : Input.Piece}
    (htext : give d i.text = .ok text) (hq : q ∈ i.pieces text)
    (hread : (Script.readWith d.load q.name q.code).isOk = false) (endpoints : Walk.Endpoints) :
    ∃ name, resultOn d endpoints i = .error (.malformed name) := by
  obtain ⟨name, hname⟩ := Input.programs_of_unread hq hread
  refine ⟨name, ?_⟩
  rw [resultOn_of_text htext]
  simp only [Input.analyze, hname]

theorem scopesOn_eq {d : Disk} {endpoints : Walk.Endpoints} {i : Input}
    {r : Except (List Fault) (List Scope)}
    (h : resultOn d endpoints i = r.mapError (.unanalysable i.name ·)) :
    scopesOn d endpoints i = r.toOption.getD [] := by
  unfold scopesOn
  rw [h]
  cases r <;> rfl

/-! ### Two ways in -/

theorem run_single_document (o : Options) (i : Input) (d : Disk) :
    (give d (run o false [i] : StateM Disk Outcome)).document =
      some (({} : Document).collect (scopesOn d (.ofNames o.source o.sink) i)) := by
  rw [run_document, List.flatMap_singleton]

/-- Nothing is written for the standard input, so nothing can go wrong after it is
analysed. -/
theorem run_standard_problem (o : Options) (d : Disk) {i : Input} (hpath : i.path = "") :
    (give d (run o false [i] : StateM Disk Outcome)).problem =
      match resultOn d (.ofNames o.source o.sink) i with
      | .ok _ => none
      | .error p => some (.failed [p] 1) := by
  obtain ⟨t, hrun, hproblem⟩ := exists_tally o [i] d
  rw [List.map_singleton, run_combine_cons] at hrun
  have hsilent : ¬(o.write && i.path ≠ "") := by simp [hpath]
  rw [hproblem]
  unfold resultOn
  unfold combineOne at hrun
  cases hresult : (give d (analyzeInput (.ofNames o.source o.sink) i)).result with
  | ok scopes =>
    rw [hresult] at hrun
    dsimp only at hrun
    rw [if_neg hsilent] at hrun
    obtain ⟨rfl, -⟩ := Prod.mk.inj hrun
    rfl
  | error p =>
    rw [hresult] at hrun
    obtain ⟨rfl, -⟩ := Prod.mk.inj hrun
    rfl

section
variable {o : Options} {d : Disk} {text : String}

/-- The standard input as a page is what its scripts are. -/
theorem run_standard_page {ps : List Program} (hpage : Html.looksLikePage text = true)
    (hread : List.Forall₂ (fun s p => Script.readWith d.load (s.name "<stdin>") s.source = .ok p)
      (Html.scripts text) ps) :
    resultOn d (.ofNames o.source o.sink) (Input.standard text) =
      (Input.scopesOf (ps.flatMap (Input.outcomes (.ofNames o.source o.sink)))).mapError
        (.unanalysable "<stdin>" ·) := by
  have hpieces : (Input.standard text).pieces text =
      (Html.scripts text).map fun s => ⟨s.name "<stdin>", s.source⟩ := by
    unfold Input.pieces
    exact if_pos hpage
  refine resultOn_of_read (i := Input.standard text) rfl ?_ _
  rw [hpieces]
  exact List.forall₂_map_left_iff.mpr hread

/-- A page with a script that cannot be read adds nothing. -/
theorem run_standard_page_unread (hpage : Html.looksLikePage text = true) {s : Html.Script}
    (hs : s ∈ Html.scripts text)
    (hread : (Script.readWith d.load (s.name "<stdin>") s.source).isOk = false) :
    ∃ name, resultOn d (.ofNames o.source o.sink) (Input.standard text) =
      .error (.malformed name) := by
  refine resultOn_of_unread (i := Input.standard text) (q := ⟨s.name "<stdin>", s.source⟩) rfl ?_
    hread _
  unfold Input.pieces
  rw [if_pos (show (Input.standard text).isPage text = true from hpage)]
  exact List.mem_map_of_mem hs

end

/-- **The standard input and a file.** A script that can be read leaves the same document
from the standard input as from a file, if it names no element of a page and both names
lead to the same source map. If it does name one, the document is that of the scripts in
the page that it is taken for. Without scripts in it, it is empty and the run succeeds; it
is empty too where one of them cannot be read, and then the run fails. -/
theorem standard_input_document (o : Options) (d : Disk) (text : String) (i : Input) (stem : String)
    (hpath : i.path = stem ++ ".js") (htext : give d i.text = .ok text)
    (hstandard : (Script.readWith d.load "<stdin>" text).isOk)
    (hfile : (Script.readWith d.load i.path text).isOk)
    (hmaps : (Script.SourceMap.location "<stdin>" text).Matches d.load
      (Script.SourceMap.location i.path text)) :
    let endpoints := Walk.Endpoints.ofNames o.source o.sink
    let outcome := give d (run o false [Input.standard text])
    (Html.looksLikePage text = false → outcome.document = (give d (run o false [i])).document) ∧
    (Html.looksLikePage text = true → Html.scripts text = [] →
      outcome.document = some {} ∧ outcome.problem = none) ∧
    (Html.looksLikePage text = true →
      (∀ ps, List.Forall₂
          (fun s p => Script.readWith d.load (s.name "<stdin>") s.source = .ok p)
          (Html.scripts text) ps →
        outcome.document = some (({} : Document).collect
          ((Input.scopesOf (ps.flatMap (Input.outcomes endpoints))).toOption.getD []))) ∧
      ∀ s ∈ Html.scripts text,
        (Script.readWith d.load (s.name "<stdin>") s.source).isOk = false →
        outcome.document = some {} ∧
          ∃ name, outcome.problem = some (.failed [.malformed name] 1)) := by
  intro endpoints outcome
  have htext' : give d (Input.standard text).text = .ok text := rfl
  have hdocument : outcome.document =
      some (({} : Document).collect (scopesOn d endpoints (Input.standard text))) :=
    run_single_document o _ d
  have hproblem := run_standard_problem o d (i := Input.standard text) rfl
  refine ⟨fun hpage => ?_, fun hpage hnone => ?_,
    fun hpage => ⟨fun ps hread => ?_, fun s hs hread => ?_⟩⟩
  · obtain ⟨p, hp⟩ := exists_of_isOk hstandard
    obtain ⟨p', hp'⟩ := exists_of_isOk hfile
    have hname : i.name = i.path := if_neg (by simp [hpath])
    have hscopes : Input.outcomes endpoints p' = Input.outcomes endpoints p := by
      rw [Script.readWith_agree hmaps hp hp']
      rfl
    rw [hdocument, run_single_document, scopesOn_eq (resultOn_script htext' hpage hp _),
      scopesOn_eq (resultOn_script htext (Input.isPage_js hpath text) (hname ▸ hp') _), hscopes]
  · have hread : List.Forall₂
        (fun s p => Script.readWith d.load (s.name "<stdin>") s.source = .ok p)
        (Html.scripts text) [] := hnone ▸ .nil
    have hresult := run_standard_page (o := o) hpage hread
    rw [hresult] at hproblem
    refine ⟨?_, hproblem⟩
    rw [hdocument, scopesOn, hresult]
    rfl
  · rw [hdocument, scopesOn_eq (run_standard_page hpage hread)]
  · obtain ⟨name, hresult⟩ := run_standard_page_unread (o := o) hpage hs hread
    rw [hresult] at hproblem
    refine ⟨?_, name, hproblem⟩
    rw [hdocument, scopesOn, hresult]
    rfl

/-! ### A comparison with something called `body` -/

namespace Comparison

/-- A script whose lines are two below in its source. -/
def spaced : String :=
  "function f(n){s=retSource();if(n < body)sink(s)}\n//# sourceMappingURL=m.json"

def tight : String := "function f(n){s=retSource();if(n<body)sink(s)}"

/-- A script that is a page with a script in it as well. -/
def quoted : String := "x='<script>function g(){s=retSource();sink(s)}</script>'"

/-- The source map is in a file. -/
def disk : Disk :=
  .ofFiles [("m.json", some "\x7b\"version\":3,\"mappings\":\"AAEA;AACA\"\x7d")]

def file (text : String) : Input := { path := "a" ++ ".js", content := some text }

/-- What is found in an input. -/
def found (i : Input) : Option (List (String × Report)) :=
  (give disk (run Options.default false [i])).document.map (·.results.entries)

theorem standard_input_spaced :
    (Script.readWith disk.load "<stdin>" spaced).isOk ∧
      (Script.readWith disk.load (file spaced).path spaced).isOk ∧
      Script.SourceMap.location "<stdin>" spaced = .file "m.json" ∧
      Html.looksLikePage spaced = false ∧
      found (file spaced) = some [("f@3", { must := [], may := ["s@3"] })] ∧
      (give disk (run Options.default false [Input.standard spaced])).document =
        (give disk (run Options.default false [file spaced])).document := by
  have hstandard : (Script.readWith disk.load "<stdin>" spaced).isOk := by decide +kernel
  have hfile : (Script.readWith disk.load (file spaced).path spaced).isOk := by decide +kernel
  have hlocation : Script.SourceMap.location "<stdin>" spaced = .file "m.json" := by
    decide +kernel
  have hlocation' : Script.SourceMap.location (file spaced).path spaced = .file "m.json" := by
    decide +kernel
  have hpage : Html.looksLikePage spaced = false := by decide +kernel
  have hmaps : (Script.SourceMap.location "<stdin>" spaced).Matches disk.load
      (Script.SourceMap.location (file spaced).path spaced) := by
    rw [hlocation, hlocation']
    exact .files rfl
  exact ⟨hstandard, hfile, hlocation, hpage, by decide +kernel,
    (standard_input_document Options.default disk spaced (file spaced) "a" rfl rfl hstandard hfile
      hmaps).1 hpage⟩

/-- Without blanks the comparison reads as the start of a page, and the finding is lost. A
script in a string is found, though it is none. -/
theorem standard_input_tight :
    (Script.readWith disk.load "<stdin>" tight).isOk ∧
      (Script.readWith disk.load (file tight).path tight).isOk ∧
      found (file tight) = some [("f@1", { must := [], may := ["s@1"] })] ∧
      found (Input.standard tight) = some [] ∧
      (give disk (run Options.default false [Input.standard tight])).document ≠
        (give disk (run Options.default false [file tight])).document ∧
      (Script.readWith disk.load "<stdin>" quoted).isOk ∧
      found (file quoted) = some [] ∧
      found (Input.standard quoted) = some [("g@1", { must := ["s@1"], may := ["s@1"] })] := by
  have hfile : found (file tight) = some [("f@1", { must := [], may := ["s@1"] })] := by
    decide +kernel
  have hstandard : found (Input.standard tight) = some [] := by decide +kernel
  refine ⟨by decide +kernel, by decide +kernel, hfile, hstandard, fun hsame => ?_,
    by decide +kernel, by decide +kernel, by decide +kernel⟩
  have hfound : found (Input.standard tight) = found (file tight) := by
    unfold found
    rw [hsame]
  rw [hfile, hstandard] at hfound
  cases hfound

end Comparison

end Run

end TaintReach
