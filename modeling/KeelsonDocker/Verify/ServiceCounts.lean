import KeelsonDocker.PlatformEntities
import KeelsonDocker.Verify.ComposeTour

/-!
# What a compose file can cost

`count_services` absorbs a `YAMLError` and an `OSError`, and nothing else. A compose file costs more than
a count if it is the first that does not parse and what is first wrong with it is neither
(`Fault.Escapes`): PyYAML raises something else about the text, or its document first has a collection
for a key of a mapping, a scalar that Python does not convert, a `!!map` tag on what has no pairs, a
mapping beyond the stack, or a key again that cannot be shown (`costsOneCount_iff`).
-/

namespace KeelsonDocker

namespace PlatformRepo

open Effect FileSystem Yaml

variable {κ : Type} [DecidableEq κ] (L : Library κ) (t : FileTree Bytes)

/-- An `OSError`. -/
def IsOs (e : Exn) : Prop := ∃ text, e = .os text

/-- A file is read, and its text is one that `parse_compose` accepts. -/
def Parses (path : Path) : Prop := ∃ text doc, readText t path = .ok text ∧ parseCompose L text = .ok doc

/-- The count of some files is a number, or nothing where a compose file does not parse. -/
def Counts (paths : List Path) : Prop :=
  ∃ total, countServices L t paths = .ok total ∧
    (total = none ↔ ∃ path ∈ paths, isComposeName path = true ∧ ¬ Parses L t path)

/-- What is neither a `YAMLError` nor an `OSError`. -/
def Escapes : LoadError → Prop
  | .yaml _ => False
  | .raised e => ¬ IsOs e

/-- The faults of a document about which something else is raised. -/
def Fault.Escapes : Fault κ → Prop
  | .collectionKey | .noPairs _ | .tooDeep => True
  | .scalar e | .merge e => PlatformRepo.Escapes e
  | .keyAgain k => ∃ e, L.repr k = .error e ∧ ¬ IsOs e
  | .recursiveNode | .unknownTag _ | .noMapping | .unhashableKey | .noSequence | .noEntry _ => False

/-- Nothing is wrong with a text. -/
def Clean (text : String) : Prop :=
  match L.compose text with
  | .ok (some d) => Sound L d
  | .ok none => True
  | .error _ => False

/-- What is first wrong with a text is not absorbed. -/
def Costly (text : String) : Prop :=
  match L.compose text with
  | .ok (some d) => ∃ f, FirstFault L d f ∧ f.Escapes L
  | .ok none => False
  | .error e => Escapes e

/-- The first compose file with which anything is wrong, if there is one, cannot be read, or what is first
wrong with its text is absorbed. -/
def Countable (paths : List Path) : Prop :=
  ∀ before path rest, paths = before ++ path :: rest →
    (∀ p ∈ before, isComposeName p = true → ∃ text, readText t p = .ok text ∧ Clean L text) →
      isComposeName path = true → ∀ text, readText t path = .ok text → ¬ Costly L text

section

variable {L t} {text : String} {path : Path} {paths : List Path}

omit [DecidableEq κ] in
theorem Fault.escapes_iff {f : Fault κ} :
    f.Escapes L ↔ ∃ e, f.error L = .loader (.raised e) ∧ ¬ IsOs e := by
  cases f with
  | scalar e | merge e => cases e <;> simp [Fault.Escapes, PlatformRepo.Escapes, Fault.error]
  | keyAgain k => cases hrepr : L.repr k <;> simp [Fault.Escapes, Fault.error, hrepr]
  | collectionKey | noPairs | tooDeep => simp [Fault.Escapes, Fault.error, recursionError, IsOs]
  | recursiveNode | unknownTag | noMapping | unhashableKey | noSequence | noEntry =>
    simp [Fault.Escapes, Fault.error]

theorem exists_parseCompose : (∃ doc, parseCompose L text = .ok doc) ↔ Clean L text := by
  unfold Clean
  cases hcompose : L.compose text with
  | error e => simp [parseCompose, hcompose]
  | ok doc =>
    cases doc with
    | none => simp [parseCompose, hcompose]
    | some d =>
      rw [parseCompose_eq hcompose]
      dsimp only
      rw [← exists_load]
      cases load L d <;> simp [Except.map]

theorem costly_iff : Costly L text ↔ ∃ e, parseCompose L text = .error (.loader (.raised e)) ∧ ¬ IsOs e := by
  unfold Costly
  cases hcompose : L.compose text with
  | error e => cases e <;> simp [parseCompose, hcompose, Escapes]
  | ok doc =>
    cases doc with
    | none => simp [parseCompose, hcompose]
    | some d =>
      simp only [parseCompose_eq_error hcompose, Fault.escapes_iff]
      constructor
      · rintro ⟨f, hf, e, he, hos⟩
        exact ⟨e, ⟨f, hf, he⟩, hos⟩
      · rintro ⟨e, ⟨f, hf, he⟩, hos⟩
        exact ⟨f, hf, e, he, hos⟩

/-- What a compose file costs. -/
inductive Cost
  | nothing (services : Nat)
  | count
  | reply (e : Exn)

variable (L t path) in
def cost : Cost :=
  match readText t path with
  | .error _ => .count
  | .ok text =>
    match parseCompose L text with
    | .error (.loader (.raised (.os _))) => .count
    | .error (.loader (.raised e)) => .reply e
    | .error _ => .count
    | .ok doc => .nothing (services L doc)

theorem countServicesFrom_cons (total : Nat) (hname : isComposeName path = true) :
    countServicesFrom L t total (path :: paths) =
      match cost L t path with
      | .nothing n => countServicesFrom L t (total + n) paths
      | .count => .ok none
      | .reply e => .error e := by
  rw [countServicesFrom, if_pos hname, cost]
  cases readText t path with
  | error e => rfl
  | ok text =>
    dsimp only
    cases parseCompose L text with
    | ok doc => rfl
    | error e =>
      match e with
      | .duplicateKey shown => rfl
      | .loader (.yaml problem) => rfl
      | .loader (.raised e) => cases e <;> rfl

theorem parses_iff : Parses L t path ↔ ∃ n, cost L t path = .nothing n := by
  unfold Parses cost
  cases readText t path with
  | error e => exact iff_of_false (fun ⟨_, _, h, _⟩ => nomatch h) fun ⟨_, h⟩ => nomatch h
  | ok text =>
    dsimp only
    cases hparse : parseCompose L text with
    | ok doc => exact ⟨fun _ => ⟨_, rfl⟩, fun _ => ⟨text, doc, rfl, hparse⟩⟩
    | error e =>
      refine iff_of_false ?_ ?_
      · rintro ⟨text', doc, hread, hdoc⟩
        cases hread
        cases hparse.symm.trans hdoc
      · rintro ⟨n, hn⟩
        match e with
        | .duplicateKey shown => cases hn
        | .loader (.yaml problem) => cases hn
        | .loader (.raised e) => cases e <;> cases hn

theorem parses_iff_clean : Parses L t path ↔ ∃ text, readText t path = .ok text ∧ Clean L text := by
  simp only [Parses, exists_and_left, exists_parseCompose]

theorem exists_cost_eq_reply :
    (∃ e, cost L t path = .reply e) ↔ ∃ text, readText t path = .ok text ∧ Costly L text := by
  unfold cost
  simp only [costly_iff]
  cases readText t path with
  | error e => exact iff_of_false (fun ⟨_, h⟩ => nomatch h) fun ⟨_, h, _⟩ => nomatch h
  | ok text =>
    simp only [Except.ok.injEq, exists_eq_left']
    cases parseCompose L text with
    | ok doc => exact iff_of_false (fun ⟨_, h⟩ => nomatch h) fun ⟨_, h, _⟩ => nomatch h
    | error e =>
      match e with
      | .duplicateKey shown => exact iff_of_false (fun ⟨_, h⟩ => nomatch h) fun ⟨_, h, _⟩ => nomatch h
      | .loader (.yaml problem) => exact iff_of_false (fun ⟨_, h⟩ => nomatch h) fun ⟨_, h, _⟩ => nomatch h
      | .loader (.raised e) =>
        cases e with
        | os message =>
          refine iff_of_false (fun ⟨_, h⟩ => nomatch h) fun ⟨_, h, hos⟩ => hos ?_
          cases h
          exact ⟨message, rfl⟩
        | backend | repo | path | docker | py | other =>
          exact iff_of_true ⟨_, rfl⟩ ⟨_, rfl, fun ⟨_, h⟩ => nomatch h⟩

/-- `Countable`, by what each file costs. -/
theorem countable_iff : Countable L t paths ↔ ∀ before path rest, paths = before ++ path :: rest →
    (∀ p ∈ before, isComposeName p = true → ∃ n, cost L t p = .nothing n) → isComposeName path = true →
      ∀ e, cost L t path ≠ .reply e := by
  simp only [Countable, ← parses_iff_clean, parses_iff]
  have hcost (path : Path) : (∀ text, readText t path = .ok text → ¬ Costly L text) ↔
      ∀ e, cost L t path ≠ .reply e := by
    rw [← not_exists, exists_cost_eq_reply]
    simp
  simp only [hcost]

theorem countable_cons (h : isComposeName path = true → ∃ n, cost L t path = .nothing n) :
    Countable L t (path :: paths) ↔ Countable L t paths := by
  rw [countable_iff, countable_iff]
  constructor
  · intro hall before p rest hpaths hbefore
    refine hall (path :: before) p rest (by rw [hpaths]; rfl) fun q hq => ?_
    rcases List.mem_cons.mp hq with rfl | hq
    · exact h
    · exact hbefore q hq
  · intro hall before p rest hpaths hbefore hname e he
    cases before with
    | nil =>
      cases hpaths
      obtain ⟨n, hn⟩ := h hname
      cases hn.symm.trans he
    | cons q before =>
      cases hpaths
      exact hall before p rest rfl (fun q hq => hbefore q (List.mem_cons_of_mem _ hq)) hname e he

theorem countServicesFrom_iff (paths : List Path) : ∀ total,
    (∃ r, countServicesFrom L t total paths = .ok r ∧
      (r = none ↔ ∃ path ∈ paths, isComposeName path = true ∧ ¬ Parses L t path)) ↔
      Countable L t paths := by
  induction paths with
  | nil =>
    refine fun total => iff_of_true ⟨some total, rfl, by simp⟩ fun before path rest h => ?_
    exact absurd h (by simp)
  | cons path paths ih =>
    intro total
    cases hname : isComposeName path with
    | false =>
      rw [countable_cons fun h => absurd h (by simp [hname]), ← ih total, countServicesFrom,
        if_neg (by simp [hname])]
      simp [hname]
    | true =>
      rw [countServicesFrom_cons total hname]
      cases hcost : cost L t path with
      | nothing n =>
        have hparses : Parses L t path := parses_iff.mpr ⟨n, hcost⟩
        rw [countable_cons fun _ => ⟨n, hcost⟩, ← ih (total + n)]
        simp [hparses]
      | count =>
        have hfails : ¬ Parses L t path := fun h => by
          obtain ⟨n, hn⟩ := parses_iff.mp h
          cases hcost.symm.trans hn
        refine iff_of_true ⟨none, rfl, iff_of_true rfl ⟨path, List.mem_cons_self, hname, hfails⟩⟩ ?_
        rw [countable_iff]
        intro before p rest hpaths hbefore _ e he
        cases before with
        | nil =>
          cases hpaths
          cases hcost.symm.trans he
        | cons q before =>
          cases hpaths
          obtain ⟨n, hn⟩ := hbefore path List.mem_cons_self hname
          cases hcost.symm.trans hn
      | reply e =>
        refine iff_of_false (fun ⟨_, h, _⟩ => nomatch h) fun h => ?_
        exact countable_iff.mp h [] path paths rfl nofun hname e hcost

theorem counts_iff : Counts L t paths ↔ Countable L t paths := countServicesFrom_iff paths 0

end

end PlatformRepo

namespace PlatformHandlers

open Effect FileSystem PlatformRepo

section

variable {κ : Type} [DecidableEq κ] (ctx : PlatformContext) (host : Host) (t : FileTree Bytes)
  (L : Yaml.Library κ)

/-- A compose file that cannot be parsed costs a count, not the listing: the count of each directory
means what it says, and the list of entities is replied if it is without the counts. -/
structure CostsOneCount : Prop where
  counts : ∀ name files, listEntityFiles t ctx.root name = .ok files → Counts L t files
  lists : (∀ name files n, listEntityFiles t ctx.root name = .ok files →
      countServices L t files = .ok (some n) → n < 2 ^ 32) →
    (∃ r, entitiesWith ctx host t (fun _ => .ok none) = .ok r) → ∃ r, listEntities ctx host t L = .ok r

variable {ctx host t L} {dirty : List String} {name : String} {info : EntityInfo}

theorem entityInfo_counted (h : entityInfo ctx host t (fun _ => .ok none) dirty name = .ok info)
    (hcounts : ∀ files, listEntityFiles t ctx.root name = .ok files → Counts L t files)
    (hfits : ∀ files n, listEntityFiles t ctx.root name = .ok files →
      countServices L t files = .ok (some n) → n < 2 ^ 32) :
    ∃ info, entityInfo ctx host t (countServices L t) dirty name = .ok info := by
  obtain ⟨files, hfiles, h⟩ := bind_eq_ok.mp h
  obtain ⟨rel, hrel, h⟩ := bind_eq_ok.mp h
  obtain ⟨text, htext, h⟩ := bind_eq_ok.mp h
  obtain ⟨relativePath, hpath, h⟩ := bind_eq_ok.mp h
  obtain ⟨fileCount, hcount, h⟩ := bind_eq_ok.mp h
  obtain ⟨total, htotal, -⟩ := hcounts files hfiles
  cases total with
  | none =>
    exact ⟨_, bind_eq_ok.mpr ⟨files, hfiles, bind_eq_ok.mpr ⟨rel, hrel, bind_eq_ok.mpr ⟨text, htext,
      bind_eq_ok.mpr ⟨relativePath, hpath, bind_eq_ok.mpr ⟨fileCount, hcount,
        bind_eq_ok.mpr ⟨none, htotal, rfl⟩⟩⟩⟩⟩⟩⟩
  | some n =>
    have hfit : n < 2 ^ 32 := hfits files n hfiles htotal
    have hn : uint32 n = .ok n := assignInt_eq_ok.mpr ⟨by omega, rfl⟩
    exact ⟨_, bind_eq_ok.mpr ⟨files, hfiles, bind_eq_ok.mpr ⟨rel, hrel, bind_eq_ok.mpr ⟨text, htext,
      bind_eq_ok.mpr ⟨relativePath, hpath, bind_eq_ok.mpr ⟨fileCount, hcount,
        bind_eq_ok.mpr ⟨some n, htotal, bind_eq_ok.mpr ⟨n, hn, rfl⟩⟩⟩⟩⟩⟩⟩⟩

/-- **A compose file costs no more than a count**, exactly when in each directory what is first wrong with
the first compose file with which anything is wrong is absorbed. -/
theorem costsOneCount_iff : CostsOneCount ctx host t L ↔
    ∀ name files, listEntityFiles t ctx.root name = .ok files → Countable L t files := by
  constructor
  · exact fun h name files hfiles => counts_iff.mp (h.counts name files hfiles)
  · intro h
    have hcounts (name files) (hfiles : listEntityFiles t ctx.root name = .ok files) : Counts L t files :=
      counts_iff.mpr (h name files hfiles)
    refine ⟨hcounts, fun hfits ⟨r, hr⟩ => ?_⟩
    obtain ⟨⟨repo, dirty⟩, hstatus, hr⟩ := bind_eq_ok.mp hr
    obtain ⟨names, hnames, hr⟩ := bind_eq_ok.mp hr
    obtain ⟨infos, hinfos, -⟩ := bind_eq_ok.mp hr
    obtain ⟨infos', hinfos'⟩ := exists_mapM_of_forall hinfos fun name info hinfo =>
      entityInfo_counted hinfo (hcounts name) (hfits name)
    exact ⟨_, bind_eq_ok.mpr ⟨(repo, dirty), hstatus, bind_eq_ok.mpr ⟨names, hnames,
      bind_eq_ok.mpr ⟨infos', hinfos', rfl⟩⟩⟩⟩

end

/-! ### A key that is a list -/

namespace ListKey

open Yaml

/-- `? [a]` with the value `b`, the text of the one compose file. -/
def document : Document where
  size := 4
  nodes
    | 0 => ⟨"tag:yaml.org,2002:map", .mapping [(1, 3)]⟩
    | 1 => ⟨"tag:yaml.org,2002:seq", .sequence [2]⟩
    | 2 => ⟨STR, .scalar "a"⟩
    | 3 => ⟨STR, .scalar "b"⟩
  root := 0

def library : Library String where
  compose := fun _ => .ok (some document)
  scalar := fun _ text => .ok text
  repr := fun k => .ok (pyRepr k)
  str := id
  stack := 100

def tree : FileTree Bytes :=
  .ofEntries
    [(["srv"], .dir), (["srv", "platforms"], .dir), (["srv", "platforms", "e"], .dir),
      (["srv", "platforms", "e", "docker-compose.yml"], .file 0o644 [])]
    (fun _ => none) (by decide) none_ne_noent

def ctx : PlatformContext where
  root := ["srv"]
  guard := {}

def host : Host where
  git := fun _ => .notInstalled
  sha256Of := fun _ => ""
  pb := {
    listFilesRequest := fun _ => .error ""
    readFileRequest := fun _ => .error ""
    writeFileRequest := fun _ => .error "" }
  chances := fun _ => {}

/-- The list of all entities is lost to the one file. -/
example : listEntities ctx host tree library = .error (.py .typeError) := by
  decide +kernel

theorem not_costsOneCount : ¬ ∀ (ctx : PlatformContext) (host : Host) (t : FileTree Bytes)
    (L : Library String), CostsOneCount ctx host t L := by
  intro h
  obtain ⟨total, htotal, -⟩ := (h ctx host tree library).counts "e"
    [["srv", "platforms", "e", "docker-compose.yml"]] (by decide +kernel)
  have hraises : countServices library tree [["srv", "platforms", "e", "docker-compose.yml"]] =
    .error (.py .typeError) := by decide +kernel
  cases hraises.symm.trans htotal

end ListKey

end PlatformHandlers

end KeelsonDocker
