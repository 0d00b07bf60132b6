import KeelsonDocker.Verify.Mutations

/-!
# A concrete daemon

`host` is an Engine whose state is the list of its containers; `containers.get` resolves a full id, a
name, or an id prefix that only one container has, as the Engine API documents (`LooksUp`). `wire`
decodes the requests that carry a name alone. The counterexamples run on these.
-/

namespace KeelsonDocker

variable {σ : Type}

/-- `containers.get(s)` answers only with a container whose name is `s` or whose id begins with `s`. -/
def LooksUp (E : Engine σ) : Prop :=
  ∀ ⦃s d c⦄, (E.get s d).1 = .ok c → c.name = some s ∨ s.toList <+: c.id.toList

/-- Full id, then name, then an unambiguous id prefix. -/
def lookUp (containers : List Container) (s : String) : Except Exn Container :=
  match containers.find? (·.id == s) <|> containers.find? (·.name == some s) with
  | some c => .ok c
  | none =>
    match containers.filter fun c => s.toList.isPrefixOf c.id.toList with
    | [c] => .ok c
    | [] => .error (.docker .notFound ("No such container: " ++ s))
    | _ => .error (.docker .apiError ("Multiple IDs found with provided prefix: " ++ s))

def host : Engine (List Container) where
  fromEnv cs := (.ok (), cs)
  list _ _ cs := (.ok cs, cs)
  get s cs := (lookUp cs s, cs)
  act _ _ _ cs := (.ok (), cs)
  reload c cs := (.ok c, cs)
  remove c _ _ cs := (.ok (), cs.filter (·.id != c.id))
  logs _ _ _ _ _ cs := (.ok [], cs)
  stats _ cs := (.ok .none, cs)

theorem looksUp_host : LooksUp host := by
  intro s cs c h
  simp only [host, lookUp] at h
  split at h
  · rename_i c' hf
    cases h
    rcases hid : cs.find? (·.id == s) with - | c''
    · rw [hid] at hf
      exact .inl (by simpa using List.find?_some hf)
    · rw [hid] at hf
      cases hf
      have hs : c.id = s := by simpa using List.find?_some hid
      exact .inr (hs ▸ List.prefix_rfl)
  · split at h
    · rename_i c' hf
      cases h
      have hc : c ∈ cs.filter fun c => s.toList.isPrefixOf c.id.toList := by rw [hf]; simp
      exact .inr (by simpa using (List.mem_filter.mp hc).2)
    · cases h
    · cases h

def router : Container where
  name := some "zenoh-router"
  id := "b71e0c9d4fa2863517ec0db94a68f23c5d1907be846fa3c2d05e7b91c8f6a043"
  attrs := .dict [("State", .dict [("Status", .str "running")])]
  labels := .dict []
  image := .ok none

/-! ### Requests that carry a name -/

/-- Field 1 of a message as a short ASCII string. -/
def readName : Bytes → Except String String
  | [] => .ok ""
  | 10 :: len :: bs =>
    if bs.length = len.toNat then .ok (String.ofList (bs.map fun b => Char.ofNat b.toNat))
    else .error "Error parsing message"
  | _ => .error "Error parsing message"

def writeName (name : String) : Bytes :=
  10 :: UInt8.ofNat name.length :: name.toList.map fun c => UInt8.ofNat c.toNat

def wire : Protobuf where
  listContainersRequest
    | [] => .ok { runningOnly := false, nameGlob := "" }
    | _ => .error "Error parsing message"
  getLogsRequest raw :=
    (readName raw).map fun name => { name, tailLines := 0, since := none, stream := .unspecified }
  startContainerRequest raw := (readName raw).map fun name => { name }
  stopContainerRequest raw := (readName raw).map fun name => { name, timeoutS := 0 }
  restartContainerRequest raw := (readName raw).map fun name => { name, timeoutS := 0 }
  removeContainerRequest raw :=
    (readName raw).map fun name => { name, force := false, removeVolumes := false }
  timestampFromJson _ := none

end KeelsonDocker
