import BgqVrnic.ConnTypes

namespace BgqVrnic

/-- `packet_controls_region` has the packets of full size, `smallpa_obj_ctls_mregion` the small ones. -/
inductive PktSize
  | full
  | small
  deriving DecidableEq, Repr

/-- The regions that `mudm_init` asks the user for: its context, and those that fields of the context
describe. -/
inductive Region
  | context
  | rdma (k : Link)
  | subgroup (k : Link)
  | controls (p : PktSize) (k : Link)
  | packets (p : PktSize) (k : Link)
  | descriptors (p : PktSize) (k : Link)
  | injRegion (k : Link)
  | recRegion (k : Link)
  | connections
  deriving DecidableEq, Repr

/-- `struct mudm_memory_region`, in the context of the `mudm_init` with this number. -/
structure MemRegion where
  init : Nat
  name : Region
  deriving DecidableEq, Repr

/-- `cleanup_fn_t` -/
inductive CleanupFn
  | freeMem
  | freeMUSubgroupMem
  | freeMUInjRegion
  | freeRecfifo
  deriving DecidableEq, Repr

/-- `struct cleanup_entry` -/
structure CleanupEntry where
  memregion : MemRegion
  cleanupFn : Option CleanupFn
  deriving DecidableEq, Repr

/-- `MAX_CLEANUP_ENTRIES` -/
def maxCleanupEntries : Nat := 25

/-- The entries of `clean_table` below `num_cleanup_entries`, whether the context in use has its magic, and
the history of the user's callbacks: the regions that `allocate` has given and refused and those that
`free` has got. -/
structure InitState where
  cleanTable : List CleanupEntry
  magic : Bool
  granted : List MemRegion
  refused : List MemRegion
  freed : List MemRegion
  deriving DecidableEq, Repr

namespace InitState

/-- `free_mem` -/
def freeMem (s : InitState) (memregion : MemRegion) : InitState :=
  { s with freed := s.freed ++ [memregion] }

end InitState

/-- The clean up of one region. The calls to the MU that deactivate the FIFOs in it always return 0. -/
def CleanupFn.run (memregion : MemRegion) (s : InitState) : CleanupFn → InitState
  | .freeMem => s.freeMem memregion
  | .freeMUSubgroupMem => s.freeMem memregion
  | .freeMUInjRegion => s.freeMem memregion
  | .freeRecfifo => s.freeMem memregion

def CleanupEntry.cleanup (s : InitState) (entry : CleanupEntry) : InitState :=
  match entry.cleanupFn with
  | some fn => fn.run entry.memregion s
  | none => s.freeMem entry.memregion

/-- `process_cleanup_table`. It leaves the entries in the table. -/
def processCleanupTable (s : InitState) : InitState :=
  s.cleanTable.reverse.foldl CleanupEntry.cleanup s

/-- `add_object` -/
def addObject (memregion : MemRegion) (fn : CleanupFn) (s : InitState) : Int × InitState :=
  if maxCleanupEntries ≤ s.cleanTable.length then (-ENOMEM, s)
  else (0, { s with cleanTable := s.cleanTable ++ [⟨memregion, some fn⟩] })

/-- `alloc_object`. No region is asked for twice in a run of `mudm_init`, so the regions that the callback
refuses say all about it. -/
def allocObject (refuses : Region → Bool) (memregion : MemRegion) (fn : CleanupFn) (s : InitState) :
    Int × InitState :=
  if maxCleanupEntries ≤ s.cleanTable.length then (-ENOMEM, s)
  else if refuses memregion.name then (-ENOMEM, { s with refused := s.refused ++ [memregion] })
  else
    (0, { s with
      granted := s.granted ++ [memregion]
      cleanTable := s.cleanTable ++ [⟨memregion, some fn⟩] })

/-- A loop over the links that is left at the first status that is not 0. -/
def forLinks (body : Link → InitState → Int × InitState) : List Link → InitState → Int × InitState
  | [], s => (0, s)
  | k :: ks, s =>
    match body k s with
    | (rc, s) => if rc = 0 then forLinks body ks s else (rc, s)

section Init

variable (refuses : Region → Bool) (n : Nat)

/-- A turn of the loop of `rdma_init`. It does not look at the status, and writes to the region: without
one that goes to the null page. -/
def rdmaInitLink (s : InitState) (k : Link) : Option InitState :=
  match allocObject refuses ⟨n, .rdma k⟩ .freeMem s with
  | (_, s) => if ⟨n, .rdma k⟩ ∈ s.granted then some s else none

/-- `rdma_init` -/
def rdmaInit (s : InitState) : Option (Int × InitState) := do
  let s ← ioLinks.foldlM (rdmaInitLink refuses n) s
  some (0, s)

/-- `alloc_pkt_list_object` -/
def allocPktListObject (p : PktSize) (k : Link) (s : InitState) : Int × InitState :=
  match allocObject refuses ⟨n, .controls p k⟩ .freeMem s with
  | (rc, s) =>
    if rc ≠ 0 then (rc, s)
    else
      match allocObject refuses ⟨n, .packets p k⟩ .freeMem s with
      | (rc, s) =>
        if rc ≠ 0 then (rc, s) else allocObject refuses ⟨n, .descriptors p k⟩ .freeMem s

/-- The allocation in `conn_list_init` -/
def connListAlloc (s : InitState) : Int × InitState :=
  allocObject refuses ⟨n, .connections⟩ .freeMem s

end Init

/-- What the user gives to `mudm_init`: the version, and whether the callbacks are there. -/
structure InitInfo where
  callersVersion : Nat
  allocate : Bool
  status : Bool
  recvConn : Bool
  recv : Bool
  free : Bool
  deriving DecidableEq, Repr

/-- The end of `mudm_init` at `ALLOC_ERROR` -/
def allocError (s : InitState) : Option (Int × InitState) := some (-ENOMEM, processCleanupTable s)

/-- `if (alloc_status) goto ALLOC_ERROR` -/
def orAllocError (r : Int × InitState) (rest : InitState → Option (Int × InitState)) :
    Option (Int × InitState) :=
  if r.1 ≠ 0 then allocError r.2 else rest r.2

/-- The end of `mudm_init`, from the connection list on. `update_IdToInjFifo` writes to the controls of the
packets. -/
def mudmInitEnd (refuses : Region → Bool) (n : Nat) (s : InitState) : Option (Int × InitState) :=
  match connListAlloc refuses n s with
  | (rc, s) =>
    if rc ≠ 0 then some (rc, s)
    else if ∀ k, ⟨n, .controls .full k⟩ ∈ s.granted ∧ ⟨n, .controls .small k⟩ ∈ s.granted then some (0, s)
    else none

/-- `mudm_init` behind its context. The two loops over the packet lists drop the status of
`alloc_pkt_list_object` and look at the one of the loop before. -/
def mudmInitRegions (refuses : Region → Bool) (n : Nat) (s : InitState) : Option (Int × InitState) := do
  let r ← rdmaInit refuses n s
  orAllocError r fun s =>
  orAllocError
    (forLinks (fun k => allocObject refuses ⟨n, .subgroup k⟩ .freeMUSubgroupMem) ioLinks s) fun s =>
  let s := ioLinks.foldl (fun s k => (allocPktListObject refuses n .full k s).2) s
  let s := ioLinks.foldl (fun s k => (allocPktListObject refuses n .small k s).2) s
  orAllocError
    (forLinks (fun k => allocObject refuses ⟨n, .injRegion k⟩ .freeMUInjRegion) ioLinks s) fun s =>
  orAllocError
    (forLinks (fun k => allocObject refuses ⟨n, .recRegion k⟩ .freeRecfifo) ioLinks s) fun s =>
  mudmInitEnd refuses n s

/-- `mudm_init`, as far as it asks for regions and uses them -/
def mudmInit (info : InitInfo) (refuses : Region → Bool) (n : Nat) (s : InitState) :
    Option (Int × InitState) :=
  if mudmVersion ≠ info.callersVersion then some (-EBADRQC, s)
  else if !info.allocate || !info.status || !info.recvConn || !info.recv || !info.free then
    some (-EINVAL, s)
  else if refuses .context then
    let s : InitState := { s with refused := s.refused ++ [⟨n, .context⟩] }
    some (-ENOMEM, s.freeMem ⟨n, .context⟩)
  else
    let s : InitState := { s with granted := s.granted ++ [⟨n, .context⟩] }
    orAllocError (addObject ⟨n, .context⟩ .freeMem s) fun s =>
    mudmInitRegions refuses n { s with magic := true }

/-- `mudm_terminate` -/
def mudmTerminate (s : InitState) : Int × InitState :=
  if s.magic then (0, { processCleanupTable s with magic := false }) else (-EFAULT, s)

end BgqVrnic
