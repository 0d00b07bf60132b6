import KeelsonDocker.PlatformHandlers
import KeelsonDocker.Verify.PathJail
import KeelsonDocker.Verify.SaveStages

/-!
# The paths that replies report

A file is reported by the place it is found at, whatever name it was found by. So the path leads back to
the file, and the flag beside it says what the guard says of that path, exactly if the names of the place
pass the rules of `resolve` (`usable_iff_of_reports`): a listed name may be a link to a file with another.
-/

namespace KeelsonDocker.PlatformHandlers

open Effect FileSystem PlatformPaths

/-- This is the one reply to a request, and that the tree it leaves. -/
def Replies (ctx : PlatformContext) (host : Host) (proc : PlatformProcedure) (raw : Bytes)
    (t t' : FileTree Bytes) (response : PlatformResponse) : Prop :=
  build ctx host proc raw { tree := t } = .ok () { tree := t', replies := [.ok response] }

/-! ### Which file a path was reported for -/

/-- In a reply to a request on `t`, which leaves `t'`, a file is reported by this path, perhaps with a
flag that it may be written. -/
inductive Reports (ctx : PlatformContext) (host : Host) (t : FileTree Bytes) :
    FileTree Bytes → Path → String → Option Bool → Prop
  /-- The file is what the directory's entry leads to. -/
  | listed {raw r info place} : Replies ctx host .listFiles raw t t' (.listFiles r) → info ∈ r.files →
    t.walk (PlatformRepo.platformsDir ctx.root ++ [r.entity, info.name]) = .ok place →
    Reports ctx host t t' place info.relativePath (some info.writable)
  | read {raw r request place} : Replies ctx host .readFile raw t t' (.readFile r) →
    host.pb.readFileRequest raw = .ok request → resolve t ctx.root request.path true = .ok place →
    Reports ctx host t t' place r.path (some r.writable)
  | wrote {raw r request place} : Replies ctx host .writeFile raw t t' (.writeFile r) →
    host.pb.writeFileRequest raw = .ok request → resolve t ctx.root request.path = .ok place →
    Reports ctx host t t' place r.path none

section

variable {ctx : PlatformContext} {host : Host} {raw : Bytes} {t t' : FileTree Bytes}
  {response : PlatformResponse} {place : Path} {rel : String}

/-- A reply that is no refusal is the handler's own. -/
theorem of_guarded {handler : Bytes → PlatformProc Unit}
    (h : guarded handler raw { tree := t } = .ok () { tree := t', replies := [.ok response] }) :
    handler raw { tree := t } = .ok () { tree := t', replies := [.ok response] } := by
  refine (run_tryCatch_eq_ok fun e s hrefusal => ?_).mp h
  have hlast {message : String} {code : Code}
      (hs : reply (.err message code) s = .ok () { tree := t', replies := [.ok response] }) : False := by
    have hreplies := congrArg PlatformWorld.replies (reply_eq_ok.mp hs)
    simpa using congrArg List.getLast? hreplies
  cases e with
  | path message => exact hlast hrefusal
  | repo code message => exact hlast hrefusal
  | _ => cases hrefusal

theorem saving_eq_ok {save : PlatformWrite.Save} {w w' : PlatformWorld} :
    saving host save w = .ok () w' ↔
      PlatformWrite.saveFile host.sha256Of save host.chances w.tree = (.ok (), w'.tree) ∧
        w' = { w with tree := w'.tree } := by
  unfold saving
  obtain ⟨result, t⟩ := PlatformWrite.saveFile host.sha256Of save host.chances w.tree
  cases result with
  | error e => simp
  | ok _ =>
    constructor
    · intro h
      cases h
      exact ⟨rfl, rfl⟩
    · rintro ⟨h, hw⟩
      cases h
      rw [hw]

theorem listFiles_of_replies {r : ListFilesResponse} (h : Replies ctx host .listFiles raw t t' (.listFiles r)) :
    t' = t ∧ ∃ request, host.pb.listFilesRequest raw = .ok request ∧
      listing ctx host t request.entity = .ok r := by
  have hrun : handleListFiles ctx host raw { tree := t } = _ := of_guarded h
  obtain ⟨request, w, hdecode, hrun⟩ := run_bind_eq_ok.mp hrun
  obtain ⟨hreq, rfl⟩ := decode_eq_ok.mp hdecode
  split at hrun
  · cases hrun
  split at hrun
  · cases hrun
  obtain ⟨response, w, hreading, hreply⟩ := run_bind_eq_ok.mp hrun
  obtain ⟨hlist, rfl⟩ := reading_eq_ok.mp hreading
  cases reply_eq_ok.mp hreply
  exact ⟨rfl, request, hreq, hlist⟩

theorem readFile_of_replies {r : ReadFileResponse} (h : Replies ctx host .readFile raw t t' (.readFile r)) :
    t' = t ∧ ∃ request response, host.pb.readFileRequest raw = .ok request ∧
      contents ctx host t request.path = .ok response ∧
      r = { response with modifiedAt := r.modifiedAt } := by
  have hrun : handleReadFile ctx host raw { tree := t } = _ := of_guarded h
  obtain ⟨request, w, hdecode, hrun⟩ := run_bind_eq_ok.mp hrun
  obtain ⟨hreq, rfl⟩ := decode_eq_ok.mp hdecode
  obtain ⟨message, w, hreading, hreply⟩ := run_bind_eq_ok.mp hrun
  obtain ⟨hread, rfl⟩ := reading_eq_ok.mp hreading
  cases reply_eq_ok.mp hreply
  obtain ⟨response, hcontents, hr⟩ := readReply_eq_ok hread
  exact ⟨rfl, request, response, hreq, hcontents, hr⟩

/-- A save that is reported was allowed, and carried through. -/
theorem writeFile_of_replies {r : WriteFileResponse} (h : Replies ctx host .writeFile raw t t' (.writeFile r)) :
    ∃ request path decision, host.pb.writeFileRequest raw = .ok request ∧
      toWrite ctx t request.path = .ok (path, r.path, decision) ∧ decision.allowed = true ∧
      r.sha256 = host.sha256Of request.content ∧
      PlatformWrite.saveFile host.sha256Of
        { path, content := request.content, baseSha256 := request.baseSha256 } host.chances t =
          (.ok (), t') := by
  have hrun : handleWriteFile ctx host raw { tree := t } = _ := of_guarded h
  obtain ⟨request, w, hdecode, hrun⟩ := run_bind_eq_ok.mp hrun
  obtain ⟨hreq, rfl⟩ := decode_eq_ok.mp hdecode
  obtain ⟨⟨path, rel, decision⟩, w, hreading, hrun⟩ := run_bind_eq_ok.mp hrun
  obtain ⟨hto, rfl⟩ := reading_eq_ok.mp hreading
  dsimp only at hrun
  split at hrun
  · cases reply_eq_ok.mp hrun
  · rename_i hallowed
    obtain ⟨⟨⟩, w, hsaving, hrun⟩ := run_bind_eq_ok.mp hrun
    obtain ⟨response, w', hreading', hreply⟩ := run_bind_eq_ok.mp hrun
    obtain ⟨hwritten, rfl⟩ := reading_eq_ok.mp hreading'
    have hw := reply_eq_ok.mp hreply
    obtain ⟨hsave, hw'⟩ := saving_eq_ok.mp hsaving
    rw [hw'] at hw
    cases hw
    obtain ⟨hpath, hsha⟩ := written_eq_ok hwritten
    rw [hpath]
    exact ⟨request, path, decision, hreq, hto, by simpa using hallowed, hsha, hsave⟩

/-! ### Addresses -/

/-- A save of this path gets past the jail and the guard. -/
def GetsPast (ctx : PlatformContext) (t : FileTree Bytes) (rel : String) : Prop :=
  ∃ path rel' decision, toWrite ctx t rel = .ok (path, rel', decision) ∧ decision.allowed = true

/-- The path leads to the file and reading it gives the file's bytes, and a flag beside it says whether
the file could be written by that path. -/
structure Usable (ctx : PlatformContext) (host : Host) (t : FileTree Bytes) (place : Path) (rel : String)
    (flag : Option Bool) : Prop where
  resolves : resolve t ctx.root rel true = .ok place
  reads : ∃ data response, t.read place = .ok data ∧ contents ctx host t rel = .ok response ∧
    response.content = data.take PlatformRepo.MAX_FILE_BYTES
  flagged : ∀ writable ∈ flag, (writable = true ↔ GetsPast ctx t rel)

/-- The names below the root are none of the forbidden ones. -/
def Plain (t : FileTree Bytes) (root : List String) (place : Path) : Prop :=
  ".git" ∉ below t root place ∧ ∀ part ∈ below t root place, '\\' ∉ part.toList

instance (t : FileTree Bytes) (root : List String) (place : Path) : Decidable (Plain t root place) :=
  inferInstanceAs (Decidable (_ ∧ _))

variable {root : List String} {mode : Nat} {data : Bytes} {flag : Option Bool}

theorem root_append_below (hin : t.realpath root <+: place) :
    t.realpath root ++ below t root place = place := by
  obtain ⟨rest, rfl⟩ := hin
  simp [below]

theorem isName_below (root : List String) (hl : Located t place) : ∀ part ∈ below t root place, IsName part :=
  fun part hpart => hl.isName part (List.mem_of_mem_drop hpart)

theorem isFile_of_node (hl : Located t place) (hn : t.node place = some (.file mode data)) :
    isFile t place = .ok true :=
  PlatformWrite.isFile_eq_true.mpr ⟨place, mode, data, hl.walk_eq, hn⟩

theorem pathName_below (hin : t.realpath root <+: place) (hne : below t root place ≠ []) :
    pathName (below t root place) = pathName place := by
  conv_rhs => rw [← root_append_below hin]
  rw [pathName, pathName, List.getLast?_append_of_ne_nil _ hne]

/-- The path that a file is reported by leads back to it exactly if its names pass the rules. -/
theorem resolve_below_iff (mustBeFile : Bool) (hl : Located t place)
    (hn : t.node place = some (.file mode data)) (hin : t.realpath root <+: place) :
    resolve t root (asPosix (below t root place)) mustBeFile = .ok place ↔
      isAllowedName (pathName place) = true ∧ Plain t root place := by
  have hparts := isName_below root hl
  rw [resolve_eq_ok, pureParts_asPosix hparts, root_append_below hin, hl.realpath_eq]
  constructor
  · rintro ⟨hshaped, -, -, hallowed, -⟩
    refine ⟨hallowed, (shaped_asPosix hparts ?_).mp hshaped⟩
    by_cases hne : below t root place = []
    · exact .inl hne
    · exact .inr (by rw [pathName_below hin hne, hallowed])
  · rintro ⟨hallowed, hplain⟩
    refine ⟨(shaped_asPosix hparts ?_).mpr hplain, rfl, hin, hallowed, fun _ => isFile_of_node hl hn⟩
    by_cases hne : below t root place = []
    · exact .inl hne
    · exact .inr (by rw [pathName_below hin hne, hallowed])

/-- A file inside the root is reported by its place. -/
theorem relativeToRoot_of_located (hl : Located t place) (hin : t.realpath root <+: place) :
    relativeToRoot t root place = .ok (asPosix (below t root place)) := by
  rw [relativeToRoot, relativeTo, hl.realpath_eq, if_pos hin]
  rfl

theorem getsPast_iff (hl : Located t place) (hin : t.realpath ctx.root <+: place)
    (hres : resolve t ctx.root rel = .ok place) :
    GetsPast ctx t rel ↔ ctx.guard.writable (asPosix (below t ctx.root place)) = true := by
  have hto : toWrite ctx t rel = .ok (place, asPosix (below t ctx.root place),
      ctx.guard.decideWrite (asPosix (below t ctx.root place))) := by
    simp only [toWrite, hres, relativeToRoot_of_located hl hin, bind, Except.bind, pure, Except.pure]
  unfold GetsPast
  rw [hto]
  constructor
  · rintro ⟨path, rel', decision, heq, hallowed⟩
    cases heq
    exact hallowed
  · exact fun h => ⟨_, _, _, rfl, h⟩

theorem contents_of_resolved (host : Host) (hl : Located t place) (hn : t.node place = some (.file mode data))
    (hin : t.realpath ctx.root <+: place) (hres : resolve t ctx.root rel true = .ok place)
    (hread : t.unreadable place = none) :
    t.read place = .ok data ∧ ∃ response, contents ctx host t rel = .ok response ∧
      response.content = data.take PlatformRepo.MAX_FILE_BYTES := by
  have hdata : t.read place = .ok data :=
    PlatformWrite.read_eq_ok.mpr ⟨place, mode, hl.walk_eq, hn, hread⟩
  have hsize : PlatformRepo.statSize t place = .ok data.length := by
    simp only [PlatformRepo.statSize, FileTree.stat, hl.walk_eq, hn]
  refine ⟨hdata, ?_⟩
  simp only [contents, contentsAt, hres, relativeToRoot_of_located hl hin, PlatformRepo.readBytes, hdata,
    hsize, bind, Except.bind, pure, Except.pure]
  refine ⟨_, rfl, ?_⟩
  dsimp only
  split
  · rfl
  · rename_i hlen
    exact (List.take_of_length_le (Nat.not_lt.mp hlen)).symm

/-- **A file that is reported by its place** is usable by that path exactly if it can be read and its
names pass the rules. -/
theorem usable_of_located_iff (hl : Located t place) (hn : t.node place = some (.file mode data))
    (hin : t.realpath ctx.root <+: place)
    (hflag : ∀ writable ∈ flag, writable = ctx.guard.writable (asPosix (below t ctx.root place))) :
    Usable ctx host t place (asPosix (below t ctx.root place)) flag ↔
      isAllowedName (pathName place) = true ∧ t.unreadable place = none ∧ Plain t ctx.root place := by
  constructor
  · rintro ⟨hres, ⟨data', response, hread, -, -⟩, -⟩
    obtain ⟨hallowed, hplain⟩ := (resolve_below_iff true hl hn hin).mp hres
    obtain ⟨k, _, hk, -, hreadable⟩ := PlatformWrite.read_eq_ok.mp hread
    cases hl.walk_eq.symm.trans hk
    exact ⟨hallowed, hreadable, hplain⟩
  · rintro ⟨hallowed, hreadable, hplain⟩
    have hres := (resolve_below_iff true hl hn hin).mpr ⟨hallowed, hplain⟩
    obtain ⟨hread, response, hcontents, hcontent⟩ := contents_of_resolved host hl hn hin hres hreadable
    refine ⟨hres, ⟨data, response, hread, hcontents, hcontent⟩, fun writable hw => ?_⟩
    rw [hflag writable hw, getsPast_iff hl hin ((resolve_below_iff false hl hn hin).mpr ⟨hallowed, hplain⟩)]

/-! ### The file a path was reported for -/

/-- The file can be read, and its name and those above it pass the rules; where the save replaced a link
that led nowhere, the path must find its way back on the tree with the file. -/
def Addressable (ctx : PlatformContext) (t t' : FileTree Bytes) (place : Path) (rel : String) : Prop :=
  isAllowedName (pathName place) = true ∧ t'.unreadable place = none ∧
    if (t.node place).any Node.isLink then
      Shaped rel ∧ leadsTo t' ctx.root rel = place ∧ t'.realpath ctx.root <+: place
    else Plain t ctx.root place

theorem addressable_iff_of_file (hn : t.node place = some (.file mode data)) :
    Addressable ctx t t place rel ↔
      isAllowedName (pathName place) = true ∧ t.unreadable place = none ∧ Plain t ctx.root place := by
  simp [Addressable, hn, Node.isLink]

theorem mem_filesAmong {base names files : List String} {name : String}
    (h : PlatformRepo.filesAmong t base names = .ok files) (hname : name ∈ files) :
    isFile t (base ++ [name]) = .ok true := by
  induction names generalizing files with
  | nil =>
    cases h
    cases hname
  | cons first names ih =>
    obtain ⟨there, hthere, h⟩ := bind_eq_ok.mp h
    obtain ⟨rest, hrest, h⟩ := bind_eq_ok.mp h
    cases h
    split at hname
    · rename_i hlisted
      rcases List.mem_cons.mp hname with rfl | hname
      · rw [hthere, (Bool.and_eq_true_iff.mp hlisted).1]
      · exact ih hrest hname
    · exact ih hrest hname

theorem of_relativeTo {rootReal path : Path} (h : relativeTo rootReal path = .ok rel) :
    rootReal <+: path ∧ rel = asPosix (path.drop rootReal.length) := by
  unfold relativeTo at h
  split at h
  · cases h
    exact ⟨‹_›, rfl⟩
  · cases h

/-- What a listing says of a file. -/
theorem file_of_listing {entity : String} {r : ListFilesResponse} {info : FileInfo}
    (h : listing ctx host t entity = .ok r) (hinfo : info ∈ r.files) :
    r.entity = entity ∧
      isFile t (PlatformRepo.platformsDir ctx.root ++ [entity, info.name]) = .ok true ∧
      relativeToRoot t ctx.root (PlatformRepo.platformsDir ctx.root ++ [entity, info.name]) =
        .ok info.relativePath ∧
      info.writable = ctx.guard.writable info.relativePath := by
  obtain ⟨state, -, h⟩ := bind_eq_ok.mp h
  obtain ⟨paths, hpaths, h⟩ := bind_eq_ok.mp h
  obtain ⟨files, hfiles, h⟩ := bind_eq_ok.mp h
  cases h
  obtain ⟨path, hpath, hinfo⟩ := exists_of_mapM_eq_ok hfiles info hinfo
  obtain ⟨hrel, hnamed, -, -, hwritable⟩ := fileInfo_eq_ok hinfo
  obtain ⟨there, -, hpaths⟩ := bind_eq_ok.mp hpaths
  split at hpaths
  · cases hpaths
  obtain ⟨names, -, hpaths⟩ := bind_eq_ok.mp hpaths
  obtain ⟨found, hfound, hpaths⟩ := bind_eq_ok.mp hpaths
  cases hpaths
  obtain ⟨name, hname, rfl⟩ := List.mem_map.mp hpath
  have hfile := mem_filesAmong hfound (by rwa [List.mem_insertionSort] at hname)
  have hpath : PlatformRepo.platformsDir ctx.root ++ [entity] ++ [name] =
      PlatformRepo.platformsDir ctx.root ++ [entity, name] := by
    simp
  have hlast : pathName (PlatformRepo.platformsDir ctx.root ++ [entity] ++ [name]) = name := by
    simp [pathName]
  rw [hpath] at hrel hfile
  rw [hnamed, hlast]
  exact ⟨rfl, hfile, hrel, hwritable⟩

/-- The place that a file's path leads to, and what is reported of it. -/
theorem located_of_reported {path : Path} (hwalk : t.walk path = .ok place)
    (hrel : relativeToRoot t ctx.root path = .ok rel) :
    Located t place ∧ t.realpath ctx.root <+: place ∧ rel = asPosix (below t ctx.root place) := by
  obtain ⟨n, -, hw⟩ := walk_eq_ok.mp hwalk
  obtain ⟨hin, hrel⟩ := of_relativeTo hrel
  rw [realpath_of_walk hw] at hin hrel
  exact ⟨hw.located located_nil, hin, hrel⟩

/-! ### After a save -/

/-- The links are those that were there before, if no link was replaced. -/
theorem sameLinks_of_sets {nd : Node Bytes} (hsets : t.Sets t' place (some nd)) (hnd : nd.isLink = false)
    (hlink : (t.node place).any Node.isLink = false) : SameLinks t t' where
  links p a target := by
    by_cases hp : p = place
    · subst hp
      rw [hsets.node_self]
      constructor
      · intro h
        rw [h] at hlink
        cases hlink
      · intro h
        cases h
        cases hnd
    · rw [hsets.node_of_ne hp]
  reached _ _ _ _ _ _ := by rw [hsets.refused]

/-- A place where the links lead, that is no link itself, is where they lead from there. -/
theorem realpath_of_parent (hclean : Clean t place) (hne : place ≠ []) (hl : Located t place.dropLast)
    (hlink : (t.node place).any Node.isLink = false) : t.realpath place = place := by
  obtain ⟨q, name, rfl⟩ := (List.eq_nil_or_concat' place).resolve_left hne
  rw [List.dropLast_concat] at hl
  refine realpath_of_not_link hl (hclean.names name (by simp)) fun a target h => ?_
  rw [(FileTree.lookup_eq_ok.mp h).2] at hlink
  cases hlink

/-- The links that `realpath` leaves lead nowhere in the tree without its files either. -/
theorem realpath_clean_skeleton (path : List String) : Clean t.skeleton (t.realpath path) :=
  run_clean (answers_of_sub (sub_skeleton t)) path

theorem usable_of_saved_iff {request : WriteFileRequest} {decision : Decision}
    (hto : toWrite ctx t request.path = .ok (place, rel, decision))
    (hsave : PlatformWrite.saveFile host.sha256Of
      { path := place, content := request.content, baseSha256 := request.baseSha256 } host.chances t =
        (.ok (), t')) :
    Usable ctx host t' place rel none ↔ Addressable ctx t t' place rel := by
  obtain ⟨path, hres, hto⟩ := bind_eq_ok.mp hto
  obtain ⟨rel', hrel, hto⟩ := bind_eq_ok.mp hto
  cases hto
  obtain ⟨-, hplace, hin, hallowed, -⟩ := resolve_eq_ok.mp hres
  have hne : place ≠ [] := by
    rintro rfl
    exact absurd hallowed (by decide)
  have hclean : Clean t place := hplace ▸ realpath_clean t _
  have hskeleton : Clean t.skeleton place := hplace ▸ realpath_clean_skeleton _
  obtain ⟨hlicensed, hreplaced⟩ := PlatformWrite.saveFile_spec hsave
  obtain ⟨-, hl, hreadable⟩ := hreplaced.saved hlicensed hskeleton hne
  obtain ⟨hparent, -, mode, hsets, -⟩ := hreplaced.at_path hskeleton hne
  have hn := hsets.node_self
  dsimp only at hl hreadable hparent hsets hn
  unfold Addressable
  cases hlink : (t.node place).any Node.isLink with
  | false =>
    have hlinks := sameLinks_of_sets hsets rfl hlink
    obtain ⟨-, hrel⟩ := of_relativeTo hrel
    rw [realpath_of_parent hclean hne hparent hlink] at hrel
    have hbelow : below t ctx.root place = below t' ctx.root place := by
      rw [below, below, hlinks.realpath_eq]
    have hrel' : rel = asPosix (below t' ctx.root place) := hrel.trans (congrArg asPosix hbelow)
    have hflag (writable : Bool) (h : writable ∈ (none : Option Bool)) :
        writable = ctx.guard.writable (asPosix (below t' ctx.root place)) := by cases h
    rw [hrel', usable_of_located_iff hl hn (hlinks.realpath_eq _ ▸ hin) hflag, if_neg (by simp), Plain,
      Plain, hbelow]
  | true =>
    rw [if_pos rfl]
    constructor
    · rintro ⟨hres', -, -⟩
      obtain ⟨hshaped, hleads, hin', -, -⟩ := resolve_eq_ok.mp hres'
      exact ⟨hallowed, hreadable, hshaped, hleads.symm, hin'⟩
    · rintro ⟨-, -, hshaped, hleads, hin'⟩
      have hres' : resolve t' ctx.root rel true = .ok place :=
        resolve_eq_ok.mpr ⟨hshaped, hleads.symm, hin', hallowed, fun _ => isFile_of_node hl hn⟩
      obtain ⟨hread, response, hcontents, hcontent⟩ :=
        contents_of_resolved host hl hn hin' hres' hreadable
      exact ⟨hres', ⟨_, response, hread, hcontents, hcontent⟩, fun _ h => by cases h⟩

/-- **A reported path is a usable address exactly if its names pass the rules.** -/
theorem usable_iff_of_reports (h : Reports ctx host t t' place rel flag) :
    Usable ctx host t' place rel flag ↔ Addressable ctx t t' place rel := by
  cases h with
  | listed hreplies hinfo hwalk =>
    obtain ⟨rfl, request, -, hlisting⟩ := listFiles_of_replies hreplies
    obtain ⟨hentity, hfile, hrel, hflag⟩ := file_of_listing hlisting hinfo
    rw [hentity] at hwalk
    obtain ⟨hl, hin, hrel⟩ := located_of_reported hwalk hrel
    obtain ⟨k, mode, data, hk, hn⟩ := PlatformWrite.isFile_eq_true.mp hfile
    cases hwalk.symm.trans hk
    rw [addressable_iff_of_file hn, hrel]
    refine usable_of_located_iff hl hn hin fun writable hw => ?_
    rw [← Option.some.inj hw, hflag, hrel]
  | read hreplies hreq hres =>
    obtain ⟨rfl, request, response, hreq', hcontents, hr⟩ := readFile_of_replies hreplies
    cases hreq.symm.trans hreq'
    obtain ⟨path, hres', hcontents⟩ := bind_eq_ok.mp hcontents
    cases hres.symm.trans hres'
    obtain ⟨rel', hrel, hcontents⟩ := bind_eq_ok.mp hcontents
    obtain ⟨⟨content, truncated⟩, -, hcontents⟩ := bind_eq_ok.mp hcontents
    obtain ⟨size, -, hcontents⟩ := bind_eq_ok.mp hcontents
    cases hcontents
    rw [hr]
    obtain ⟨-, hplace, -, -, hfile⟩ := resolve_eq_ok.mp hres
    obtain ⟨k, mode, data, hk, hn⟩ := PlatformWrite.isFile_eq_true.mp (hfile rfl)
    cases resolve_found hres hk
    obtain ⟨hl, hin, hrel⟩ := located_of_reported hk hrel
    dsimp only
    rw [addressable_iff_of_file hn, hrel]
    exact usable_of_located_iff hl hn hin fun writable hw => (Option.some.inj hw).symm
  | wrote hreplies hreq hres =>
    obtain ⟨request, path, decision, hreq', hto, -, -, hsave⟩ := writeFile_of_replies hreplies
    cases hreq.symm.trans hreq'
    obtain ⟨path', hres', hrest⟩ := bind_eq_ok.mp hto
    cases hres.symm.trans hres'
    obtain ⟨rel', -, hrest⟩ := bind_eq_ok.mp hrest
    cases hrest
    exact usable_of_saved_iff hto hsave

end

/-! ### A name that stands for another -/

namespace Renamed

/-- The entry `a.yml` is a link to notes that no rule lets through, `b.yml` a file. -/
def tree : FileTree Bytes :=
  .ofEntries
    [(["srv"], .dir), (["srv", "platforms"], .dir), (["srv", "platforms", "e"], .dir),
      (["srv", "platforms", "e", "a.yml"], .link false ["notes.txt"]),
      (["srv", "platforms", "e", "b.yml"], .file 0o644 [104, 105]),
      (["srv", "platforms", "e", "notes.txt"], .file 0o644 [])]
    (fun _ => none) (by decide) none_ne_noent

def ctx : PlatformContext where
  root := ["srv"]
  guard := {}

def host : Host where
  git := fun _ => .completed ⟨0, "", ""⟩
  sha256Of := fun _ => "8f43"
  pb := {
    listFilesRequest := fun _ => .ok { entity := "e" }
    readFileRequest := fun _ => .error ""
    writeFileRequest := fun _ => .error "" }
  chances := fun _ => {}

def listed : ListFilesResponse where
  entity := "e"
  files := [
    { name := "a.yml", relativePath := "platforms/e/notes.txt", sizeBytes := 0, kind := .yaml
      dirty := false, writable := false, deletable := false },
    { name := "b.yml", relativePath := "platforms/e/b.yml", sizeBytes := 2, kind := .yaml
      dirty := false, writable := false, deletable := false }]

theorem listing_eq : listing ctx host tree "e" = .ok listed := by decide +kernel

theorem replies : Replies ctx host .listFiles [] tree tree (.listFiles listed) := by
  have hread : reading (fun t => listing ctx host t "e") { tree } = .ok listed { tree } :=
    reading_eq_ok.mpr ⟨listing_eq, rfl⟩
  refine run_tryCatch_ok ((run_bind_ok (decode_eq_ok.mpr ⟨rfl, rfl⟩)).trans ?_)
  rw [if_neg (by decide), if_neg (by decide)]
  exact run_bind_ok hread

theorem not_usable : ¬ ∀ ctx host t t' place rel flag, Reports ctx host t t' place rel flag →
    Usable ctx host t' place rel flag := by
  intro h
  have husable := h ctx host tree tree ["srv", "platforms", "e", "notes.txt"] "platforms/e/notes.txt" _
    (.listed replies List.mem_cons_self (by decide +kernel))
  have hres := husable.resolves
  revert hres
  decide +kernel

theorem usable_plain : Usable ctx host tree ["srv", "platforms", "e", "b.yml"] "platforms/e/b.yml"
    (some false) := by
  have hreports : Reports ctx host tree tree ["srv", "platforms", "e", "b.yml"] "platforms/e/b.yml"
      (some false) :=
    .listed replies (List.mem_cons_of_mem _ List.mem_cons_self) (by decide +kernel)
  have hplain : Plain tree ctx.root ["srv", "platforms", "e", "b.yml"] := by decide +kernel
  exact (usable_iff_of_reports hreports).mpr ⟨by decide, rfl, hplain⟩

end Renamed

end KeelsonDocker.PlatformHandlers
