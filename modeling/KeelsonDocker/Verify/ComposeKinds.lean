import KeelsonDocker.Verify.ServiceCounts
import Mathlib.Algebra.GroupWithZero.Nat

/-!
# Which files the service count covers

`list_files` labels more files as compose files than `count_services` opens: names in other letters, and
`compose.yml`. A count that is reported is the total over the labelled files exactly when the files
left out parse and define nothing (`countsLabelled_iff`).
-/

namespace KeelsonDocker

open Effect FileSystem

namespace PlatformRepo

variable {κ : Type} [DecidableEq κ] (L : Yaml.Library κ) (t : FileTree Bytes)

/-- The services that a file defines, if it parses. -/
def servicesIn (path : Path) : Option Nat :=
  match cost L t path with
  | .nothing n => some n
  | _ => none

/-- What some files define in total. -/
def totalServices (files : List Path) : Nat := (files.map fun path => (servicesIn L t path).getD 0).sum

variable {L t} {files : List Path} {count : Option Nat} {n : Nat}

theorem parses_iff_servicesIn {path : Path} : Parses L t path ↔ ∃ n, servicesIn L t path = some n := by
  rw [parses_iff, servicesIn]
  cases cost L t path <;> simp

/-- The loop stops early at a file that does not parse, and adds up what the others define. -/
theorem countServicesFrom_eq_ok (files : List Path) : ∀ total count,
    countServicesFrom L t total files = .ok count →
      ((∃ n, count = some n) ↔ ∀ path ∈ files, isComposeName path = true → Parses L t path) ∧
      ∀ n ∈ count, n = total + totalServices L t (files.filter isComposeName) := by
  induction files with
  | nil =>
    intro total count h
    cases h
    simp [totalServices]
  | cons path files ih =>
    intro total count h
    cases hname : isComposeName path with
    | false =>
      rw [countServicesFrom, if_neg (by simp [hname])] at h
      simpa [hname] using ih total count h
    | true =>
      rw [countServicesFrom_cons total hname] at h
      cases hcost : cost L t path with
      | nothing n =>
        rw [hcost] at h
        obtain ⟨hsome, htotal⟩ := ih (total + n) count h
        have hparses : Parses L t path := parses_iff.mpr ⟨n, hcost⟩
        refine ⟨by simp [hsome, hparses], fun m hm => ?_⟩
        rw [htotal m hm, List.filter_cons_of_pos hname, totalServices, totalServices,
          List.map_cons, List.sum_cons, servicesIn, hcost, Option.getD_some, Nat.add_assoc]
      | count =>
        rw [hcost] at h
        cases h
        have hfails : ¬ Parses L t path := by
          rw [parses_iff, hcost]
          rintro ⟨_, ⟨⟩⟩
        refine ⟨iff_of_false (by simp) fun hall => hfails (hall path List.mem_cons_self hname), ?_⟩
        rintro _ ⟨⟩
      | reply e =>
        rw [hcost] at h
        cases h

end PlatformRepo

namespace PlatformHandlers

open PlatformRepo

/-- A file that `list_files` labels as a compose file. -/
def labelled (path : Path) : Bool := kind (pathName path) = .compose

/-- A labelled file that `count_services` does not open. -/
def leftOut (path : Path) : Bool := labelled path && !isComposeName path

/-- The labels of the reply are those. -/
theorem listing_kinds {ctx : PlatformContext} {host : Host} {t : FileTree Bytes} {entity : String}
    {r : ListFilesResponse} (h : listing ctx host t entity = .ok r) :
    ∃ files, listEntityFiles t ctx.root entity = .ok files ∧
      r.files.map (fun info => (info.name, decide (info.kind = .compose))) =
        files.map fun path => (pathName path, labelled path) := by
  obtain ⟨state, -, h⟩ := bind_eq_ok.mp h
  obtain ⟨files, hfiles, h⟩ := bind_eq_ok.mp h
  obtain ⟨infos, hinfos, h⟩ := bind_eq_ok.mp h
  cases h
  refine ⟨files, hfiles, map_of_mapM_eq_ok hinfos fun path info hinfo => ?_⟩
  obtain ⟨-, hname, hkind, -, -⟩ := fileInfo_eq_ok hinfo
  rw [hname, hkind]
  rfl

theorem labelled_of_isComposeName {path : Path} (h : isComposeName path = true) :
    labelled path = true := by
  obtain ⟨rest, hrest⟩ : "docker-compose".toList <+: (pathName path).toList := of_decide_eq_true h
  have hlower : "docker-compose".toList <+: (lower (pathName path)).toList := by
    rw [show (lower (pathName path)).toList = _ from String.toList_ofList, ← hrest,
      List.flatMap_append]
    exact List.prefix_append _ _
  rw [labelled, kind, if_pos (.inl hlower)]
  rfl

variable {κ : Type} [DecidableEq κ] (L : Yaml.Library κ) (t : FileTree Bytes)

/-- What a count has to say of the files it is reported for. -/
structure CountsLabelled (files : List Path) (count : Option Int) : Prop where
  total : ∀ n ∈ count, n = totalServices L t (files.filter labelled)
  absent : ∀ path ∈ files, labelled path = true → ¬ Parses L t path → count = none

/-- If the count does not fall to a file that it opens, what it leaves out parses and defines nothing. -/
def NothingLeftOut (files : List Path) : Prop :=
  (∀ path ∈ files, isComposeName path = true → Parses L t path) →
    ∀ path ∈ files, leftOut path = true → servicesIn L t path = some 0

variable {L t} {files : List Path}

theorem totalServices_labelled (files : List Path) : totalServices L t (files.filter labelled) =
    totalServices L t (files.filter isComposeName) + totalServices L t (files.filter leftOut) := by
  induction files with
  | nil => rfl
  | cons path files ih =>
    unfold totalServices at ih ⊢
    cases hname : isComposeName path with
    | true =>
      have hlabel := labelled_of_isComposeName hname
      simp [leftOut, hname, hlabel, ih, Nat.add_assoc]
    | false =>
      cases hlabel : labelled path with
      | true =>
        simp [leftOut, hname, hlabel, ih, Nat.add_left_comm]
      | false => simp [leftOut, hname, hlabel, ih]

/-- The files left out define nothing in total when each of them that parses defines nothing. -/
theorem totalServices_leftOut_eq_zero_iff : totalServices L t (files.filter leftOut) = 0 ↔
    ∀ path ∈ files, leftOut path = true → (servicesIn L t path).getD 0 = 0 := by
  rw [totalServices, List.sum_eq_zero_iff, List.forall_mem_map]
  simp only [List.mem_filter, and_imp]

theorem countsLabelled_of_count {count : Option Nat} (h : countServices L t files = .ok count) :
    CountsLabelled L t files (count.map Nat.cast) ↔ NothingLeftOut L t files := by
  obtain ⟨hsome, htotal⟩ := countServicesFrom_eq_ok files 0 count h
  constructor
  · intro hcounts hparse path hpath hleft
    obtain ⟨n, rfl⟩ := hsome.mpr hparse
    have hlabel : labelled path = true := (Bool.and_eq_true_iff.mp hleft).1
    have hnothing : totalServices L t (files.filter leftOut) = 0 := by
      have hcounted := htotal n rfl
      have hlabelled : n = totalServices L t (files.filter labelled) := by
        exact_mod_cast hcounts.total n rfl
      rw [totalServices_labelled] at hlabelled
      omega
    have hparses : Parses L t path := by
      by_contra hfails
      cases hcounts.absent path hpath hlabel hfails
    obtain ⟨m, hm⟩ := parses_iff_servicesIn.mp hparses
    have hzero := totalServices_leftOut_eq_zero_iff.mp hnothing path hpath hleft
    rw [hm] at hzero ⊢
    exact congrArg some hzero
  · intro hnothing
    cases count with
    | none => exact ⟨nofun, fun _ _ _ _ => rfl⟩
    | some n =>
      have hparse := hsome.mp ⟨n, rfl⟩
      have hzero := hnothing hparse
      constructor
      · rintro _ ⟨⟩
        have hleft : totalServices L t (files.filter leftOut) = 0 := by
          refine totalServices_leftOut_eq_zero_iff.mpr fun path hpath hleft => ?_
          rw [hzero path hpath hleft]
          rfl
        rw [htotal n rfl, totalServices_labelled, hleft]
        omega
      · intro path hpath hlabel hfails
        cases hname : isComposeName path with
        | true => exact absurd (hparse path hpath hname) hfails
        | false =>
          have hleft : leftOut path = true := by simp [leftOut, hlabel, hname]
          exact absurd (parses_iff_servicesIn.mpr ⟨0, hzero path hpath hleft⟩) hfails

variable {ctx : PlatformContext} {host : Host} {r : ListEntitiesResponse}

theorem entityInfo_eq_ok {counter : List Path → Except Exn (Option Nat)} {dirty : List String}
    {name : String} {info : EntityInfo} (h : entityInfo ctx host t counter dirty name = .ok info) :
    ∃ files count, listEntityFiles t ctx.root name = .ok files ∧ counter files = .ok count ∧
      info.name = name ∧ info.serviceCount = count.map Nat.cast := by
  obtain ⟨files, hfiles, h⟩ := bind_eq_ok.mp h
  obtain ⟨rel, -, h⟩ := bind_eq_ok.mp h
  obtain ⟨text, htext, h⟩ := bind_eq_ok.mp h
  obtain ⟨relativePath, -, h⟩ := bind_eq_ok.mp h
  obtain ⟨fileCount, -, h⟩ := bind_eq_ok.mp h
  obtain ⟨count, hcount, h⟩ := bind_eq_ok.mp h
  obtain ⟨-, rfl⟩ := assignText_eq_ok.mp htext
  refine ⟨files, count, hfiles, hcount, ?_⟩
  cases count with
  | none =>
    cases h
    exact ⟨rfl, rfl⟩
  | some n =>
    obtain ⟨m, hm, h⟩ := bind_eq_ok.mp h
    cases h
    obtain ⟨-, rfl⟩ := assignInt_eq_ok.mp hm
    exact ⟨rfl, rfl⟩

theorem countsLabelled_iff (h : listEntities ctx host t L = .ok r) :
    (∀ info ∈ r.entities, ∀ files, listEntityFiles t ctx.root info.name = .ok files →
      CountsLabelled L t files info.serviceCount) ↔
    ∀ info ∈ r.entities, ∀ files, listEntityFiles t ctx.root info.name = .ok files →
      NothingLeftOut L t files := by
  obtain ⟨⟨repo, dirty⟩, -, h⟩ := bind_eq_ok.mp h
  obtain ⟨names, -, h⟩ := bind_eq_ok.mp h
  obtain ⟨infos, hinfos, h⟩ := bind_eq_ok.mp h
  cases h
  apply forall₂_congr
  intro info hinfo
  apply forall₂_congr
  intro files hfiles
  obtain ⟨name, -, hinfo⟩ := exists_of_mapM_eq_ok hinfos info hinfo
  obtain ⟨files', count, hfiles', hcount, rfl, hservices⟩ := entityInfo_eq_ok hinfo
  cases hfiles.symm.trans hfiles'
  rw [hservices]
  exact countsLabelled_of_count hcount

/-! ### `compose.yml` -/

namespace ComposeYml

open Yaml

/-- `services: {web: {}}`, the text of the compose files. -/
def document : Document where
  size := 5
  nodes
    | 0 => ⟨"tag:yaml.org,2002:map", .mapping [(1, 2)]⟩
    | 1 => ⟨STR, .scalar "services"⟩
    | 2 => ⟨"tag:yaml.org,2002:map", .mapping [(3, 4)]⟩
    | 3 => ⟨STR, .scalar "web"⟩
    | 4 => ⟨"tag:yaml.org,2002:map", .mapping []⟩
  root := 0

def library : Library String := { ListKey.library with compose := fun _ => .ok (some document) }

/-- One entity and one file in it. -/
def entries (name : String) : List (Path × FileSystem.Node Bytes) :=
  [(["srv"], .dir), (["srv", "platforms"], .dir), (["srv", "platforms", "e"], .dir),
    (["srv", "platforms", "e", name], .file 0o644 [])]

def tree (name : String) (h : Proper (entries name)) : FileTree Bytes :=
  .ofEntries (entries name) (fun _ => none) h none_ne_noent

def entity (services : Int) : EntityInfo where
  name := "e"
  relativePath := "platforms/e"
  fileCount := 1
  serviceCount := some services
  hasReadme := false
  dirty := false

def response (services : Int) : ListEntitiesResponse where
  entities := [entity services]
  writeEnabled := false
  deleteEnabled := false
  gitEnabled := false
  pushEnabled := false

theorem countsLabelled_dockerCompose :
    let t := tree "docker-compose.yml" (by decide)
    ∀ files, listEntityFiles t ["srv"] "e" = .ok files → CountsLabelled library t files (some 1) := by
  intro t files hfiles
  have hlist : listEntities ListKey.ctx ListKey.host t library = .ok (response 1) := by
    decide +kernel
  refine (countsLabelled_iff hlist).mpr ?_ (entity 1) List.mem_cons_self files hfiles
  intro info hinfo files hfiles hparse path hpath hleft
  cases List.mem_singleton.mp hinfo
  have honly : listEntityFiles t ["srv"] "e" = .ok [["srv", "platforms", "e", "docker-compose.yml"]] := by
    decide +kernel
  cases honly.symm.trans hfiles
  cases List.mem_singleton.mp hpath
  have hopened : leftOut ["srv", "platforms", "e", "docker-compose.yml"] = false := by
    decide +kernel
  cases hopened.symm.trans hleft

theorem not_countsLabelled_compose : ¬ ∀ (ctx : PlatformContext) (host : Host) (t : FileTree Bytes)
    (L : Library String) (r : ListEntitiesResponse), listEntities ctx host t L = .ok r →
      ∀ info ∈ r.entities, ∀ files, listEntityFiles t ctx.root info.name = .ok files →
        CountsLabelled L t files info.serviceCount := by
  intro h
  have hcounts := h ListKey.ctx ListKey.host (tree "compose.yml" (by decide)) library (response 0)
    (by decide +kernel) (entity 0) List.mem_cons_self [["srv", "platforms", "e", "compose.yml"]]
    (by decide +kernel)
  have htotal : (0 : Int) = totalServices library (tree "compose.yml" (by decide))
      ([["srv", "platforms", "e", "compose.yml"]].filter labelled) := hcounts.total 0 rfl
  revert htotal
  decide +kernel

end ComposeYml

end PlatformHandlers

end KeelsonDocker
