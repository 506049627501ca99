import Tirpc.Lib.Transition
import Tirpc.ServiceRegister.ZkServiceRegister

/-!
# Is the cache of a client what the server holds?

A list in the cache stays right as long as a watch stands behind it, or an event that will have it read again. A
client that asks for a path which is not there, or whose answer is an error, caches the empty list with no watch, and
nothing reads it again. So it is when a deletion ends the watch, whose event the callback passes over.
-/

namespace Tirpc

open Lib

/-- An event of the path has not been taken, or its answer has not been stored. -/
def ZkClient.Outstanding (cli : ZkClient) (path : Bytes) : Prop :=
  (∃ event ∈ cli.events, event.path = path) ∨ ∃ result, cli.watcher = some (path, result)

variable {R : Type}

/-- While no event of a path is outstanding, the cached list of the path is what the server holds, and `Discover`
returns the addresses that are registered under it. This is asked as long as the client has its session. -/
structure Coherent (s : Zookeeper R) (c : R) : Prop where
  cached : (s.registers c).zkCli.isConnected = true → ∀ path result, ¬(s.registers c).zkCli.Outstanding path →
    (s.registers c).zkCli.childrenNodesMap path = some result → result.Perm (s.nodes.children path)
  discovered : (s.registers c).zkCli.isConnected = true → ∀ path result, ¬(s.registers c).zkCli.Outstanding path →
    (s.registers c).discovered path = some result →
      ∀ addr, addr ∈ result ↔ slash ∉ addr ∧ childPath path addr ∈ s.nodes.paths

/-- An answer for the path is still to be stored. -/
def ZkWork.Stores (path : Bytes) : ZkWork → Prop
  | .store asked _ _ => asked = path
  | .create _ | .zooCreate _ | .deleteNode _ | .zooDelete _ | .getChildrenNodes _ _ | .stop => False

instance (path : Bytes) : (w : ZkWork) → Decidable (w.Stores path)
  | .store _ _ _ => inferInstanceAs (Decidable (_ = _))
  | .create _ | .zooCreate _ | .deleteNode _ | .zooDelete _ | .getChildrenNodes _ _ | .stop =>
      inferInstanceAs (Decidable False)

/-- A client that asks is answered with `ZOK`, and for the path under which it keeps the answer: the path has no NUL. No
node is deleted that it watches. -/
def ZkWork.KeepsWatch (cli : ZkClient) (own : Prop) (reply : ZkReply) : ZkWork → Prop
  | .getChildrenNodes path _ => own → cli.childrenNodesMap path = none → reply.IsOk ∧ 0 ∉ path
  | .zooDelete path => reply.IsOk → cli.watches path = false
  | .create _ | .zooCreate _ | .deleteNode _ | .store _ _ _ | .stop => True

instance (cli : ZkClient) (own : Prop) [Decidable own] (reply : ZkReply) :
    (w : ZkWork) → Decidable (w.KeepsWatch cli own reply)
  | .getChildrenNodes _ _ => inferInstanceAs (Decidable (_ → _ → _ ∧ _))
  | .zooDelete _ => inferInstanceAs (Decidable (_ → _))
  | .create _ | .zooCreate _ | .deleteNode _ | .store _ _ _ | .stop => inferInstanceAs (Decidable True)

/-- Whenever client `c` asks for the children of a path, also in its callback, the path is there and it gets them; the
path has no NUL. No node is deleted that it watches, and its callback does not read a path again whose last answer is
still to be stored by the thread that has called `Discover`. -/
def KeepsWatch (c : R) (s : Zookeeper R) : ZkStep R → Prop
  | .work r reply => ∀ w ∈ (s.registers r).work.head?, w.KeepsWatch (s.registers c).zkCli (r = c) reply
  | .serviceWatcher r reply => r = c → ∀ event ∈ (s.registers c).zkCli.events.head?, event.type = .child →
      reply.IsOk ∧ ∀ w ∈ (s.registers c).work, ¬w.Stores event.path
  | .register _ _ _ | .discover _ _ | .clear _ _ _ | .storeWatched _ => True

instance [DecidableEq R] (c : R) (s : Zookeeper R) : (l : ZkStep R) → Decidable (KeepsWatch c s l)
  | .work _ _ => inferInstanceAs (Decidable (∀ _ ∈ _, _))
  | .serviceWatcher _ _ => inferInstanceAs (Decidable (_ → ∀ _ ∈ _, _ → _ ∧ _))
  | .register _ _ _ | .discover _ _ | .clear _ _ _ | .storeWatched _ => inferInstanceAs (Decidable True)

/-! ## Lists that are right, or will be read again -/

def Fresh (nodes : PathTree) (cli : ZkClient) (path : Bytes) (result : List Bytes) : Prop :=
  cli.watches path = true ∧ result.Perm (nodes.children path) ∨ { type := .child, path := path } ∈ cli.events

/-- The lists that a client has, or is about to store. One that the callback overwrites need not be fresh. -/
structure CacheFresh (nodes : PathTree) (g : ZkServiceRegister) : Prop where
  cached : ∀ path result, g.zkCli.childrenNodesMap path = some result →
    Fresh nodes g.zkCli path result ∨ ∃ l, g.zkCli.watcher = some (path, l)
  watcher : ∀ path result, g.zkCli.watcher = some (path, result) → Fresh nodes g.zkCli path result
  stores : ∀ path result clear, .store path result clear ∈ g.work → Fresh nodes g.zkCli path result

variable {nodes nodes' : PathTree} {cli cli' : ZkClient} {g g' : ZkServiceRegister} {path above : Bytes}
  {result : List Bytes} {type : ZkEventType} {reply : ZkReply}

theorem notify_unwatched (h : cli.watches path = false) : cli.notify type path = cli := if_neg (by simp [h])

/-- The change of one node's children is told to who watches them. -/
theorem Fresh.changed (h : Fresh nodes cli path result)
    (hother : ∀ path, above ≠ path → nodes'.children path = nodes.children path) :
    Fresh nodes' (cli.notify .child above) path result := by
  simp only [ZkClient.notify]
  rcases h with ⟨hwatch, hperm⟩ | hevent
  · by_cases habove : above = path
    · subst habove
      rw [if_pos hwatch]
      exact .inr (List.mem_append_right _ List.mem_cons_self)
    · refine .inl ⟨?_, hother path habove ▸ hperm⟩
      split
      · rw [← hwatch]
        exact Function.update_of_ne (Ne.symm habove) _ _
      · exact hwatch
  · split
    · exact .inr (List.mem_append_left _ hevent)
    · exact .inr hevent

theorem CacheFresh.mono (h : CacheFresh nodes g) (hmap : g'.zkCli.childrenNodesMap = g.zkCli.childrenNodesMap)
    (hwatcher : g'.zkCli.watcher = g.zkCli.watcher)
    (hwork : ∀ path result clear, ZkWork.store path result clear ∈ g'.work → .store path result clear ∈ g.work)
    (hfresh : ∀ path result, Fresh nodes g.zkCli path result → Fresh nodes' g'.zkCli path result) :
    CacheFresh nodes' g' where
  cached path result hc := by
    rw [hmap] at hc
    rw [hwatcher]
    exact (h.cached path result hc).imp (hfresh path result) id
  watcher path result hw := hfresh path result (h.watcher path result (hwatcher ▸ hw))
  stores path result clear hs := hfresh path result (h.stores path result clear (hwork path result clear hs))

theorem notify_fields (cli : ZkClient) (type : ZkEventType) (path : Bytes) :
    (cli.notify type path).childrenNodesMap = cli.childrenNodesMap ∧ (cli.notify type path).watcher = cli.watcher ∧
      (cli.notify type path).isConnected = cli.isConnected := by
  simp only [ZkClient.notify]
  split <;> exact ⟨rfl, rfl, rfl⟩

theorem CacheFresh.changed (h : CacheFresh nodes g)
    (hother : ∀ path, above ≠ path → nodes'.children path = nodes.children path) :
    CacheFresh nodes' { g with zkCli := g.zkCli.notify .child above } := by
  obtain ⟨hmap, hwatcher, -⟩ := notify_fields g.zkCli .child above
  exact h.mono hmap hwatcher (fun _ _ _ => id) fun path result hf => hf.changed hother

/-! ## A property of one register -/

/-- What holds of client `c` while it has its session. -/
def Guarded (s : Zookeeper R) (c : R) : Prop :=
  (s.registers c).zkCli.isConnected = true → CacheFresh s.nodes (s.registers c)

variable {s s' : Zookeeper R} {c r : R} {work work' : List ZkWork}

theorem Guarded.zooCreate (h : Guarded s c) (hn : s.zooCreate path = some s') :
    Guarded s' c ∧ ∀ r, (s'.registers r).work = (s.registers r).work := by
  obtain ⟨hcreatable, hn⟩ := Option.dite_none_right_eq_some.mp hn
  cases hn
  refine ⟨fun hconnected => ?_, fun _ => rfl⟩
  exact (h ((notify_fields _ _ _).2.2 ▸ hconnected)).changed fun other ho => PathTree.children_create hcreatable ho

theorem Guarded.zooDelete (h : Guarded s c) (hwatch : (s.registers c).zkCli.watches path = false)
    (hn : s.zooDelete path = some s') : Guarded s' c ∧ ∀ r, (s'.registers r).work = (s.registers r).work := by
  obtain ⟨hdeletable, hn⟩ := Option.ite_none_right_eq_some.mp hn
  cases hn
  refine ⟨fun hconnected => ?_, fun _ => rfl⟩
  have hquiet : (s.registers c).zkCli.notify .deleted path = (s.registers c).zkCli := notify_unwatched hwatch
  simp only [Zookeeper.notify, hquiet] at hconnected ⊢
  exact (h ((notify_fields _ _ _).2.2 ▸ hconnected)).changed fun other ho => PathTree.children_delete ho

variable [DecidableEq R]

theorem Guarded.set (h : Guarded s c) (hown : r = c → g.zkCli.isConnected = true → CacheFresh s.nodes g) :
    Guarded (s.set r g) c := by
  by_cases hr : r = c
  · subst hr
    simp only [Guarded, Zookeeper.set, Function.update_self]
    exact hown rfl
  · simp only [Guarded, Zookeeper.set, Function.update_of_ne (Ne.symm hr)]
    exact h

theorem Guarded.setWork (h : Guarded s c)
    (hwork : ∀ path result clear, ZkWork.store path result clear ∈ work' →
      .store path result clear ∈ (s.registers r).work) :
    Guarded (s.setWork r work') c := by
  refine h.set ?_
  rintro rfl hconnected
  exact (h hconnected).mono rfl rfl hwork fun _ _ => id

/-- A function that is called leaves the client alone, and no answer is to be stored when it begins. -/
theorem Guarded.call (h : Guarded s c) (hconnected : (s.registers r).zkCli.isConnected = true)
    (hcli : g.zkCli = (s.registers r).zkCli) (hwork : ∀ path result clear, ZkWork.store path result clear ∉ g.work) :
    Guarded (s.set r g) c := by
  refine h.set ?_
  rintro rfl -
  exact (h hconnected).mono (by rw [hcli]) (by rw [hcli]) (fun _ _ _ hs => absurd hs (hwork _ _ _))
    fun _ _ hf => hcli ▸ hf

theorem setClient_setWork : (s.setClient r cli).setWork r work =
    s.set r { s.registers r with zkCli := cli, work := work } := by
  simp [Zookeeper.setClient, Zookeeper.setWork, Zookeeper.set]

/-! ## Steps -/

theorem Fresh.watch (h : Fresh nodes cli path result) (asked : Bytes) :
    Fresh nodes { cli with watches := Function.update cli.watches asked true } path result := by
  refine h.imp (fun hf => ⟨?_, hf.2⟩) id
  by_cases hp : path = asked
  · subst hp
    exact Function.update_self _ _ _
  · exact (Function.update_of_ne hp _ _).trans hf.1

/-- What `getChildren` has been answered stays right as long as its watch does. -/
theorem fresh_answered (hreply : reply.Children nodes path) (hok : reply.IsOk) :
    Fresh nodes (cli.getChildren path reply).1 path (cli.getChildren path reply).2 := by
  cases reply with
  | ok nodeVec => exact .inl ⟨Function.update_self _ _ _, hreply.2⟩
  | noNode => cases hok
  | failed => cases hok

theorem Fresh.getChildren {asked : Bytes} (h : Fresh nodes cli path result) :
    Fresh nodes (cli.getChildren asked reply).1 path result := by
  cases reply with
  | ok nodeVec => exact h.watch asked
  | noNode => exact h
  | failed => exact h

theorem getChildren_fields (cli : ZkClient) (path : Bytes) (reply : ZkReply) :
    (cli.getChildren path reply).1.childrenNodesMap = cli.childrenNodesMap ∧
      (cli.getChildren path reply).1.watcher = cli.watcher ∧
      (cli.getChildren path reply).1.isConnected = cli.isConnected := by
  cases reply <;> exact ⟨rfl, rfl, rfl⟩

theorem store_behind {asked : Bytes} {result stored : List Bytes} {clear clear' : Bool}
    (h : ZkWork.store asked stored clear' ∈ ZkServiceRegister.behind path clear result ++ work) :
    .store asked stored clear' ∈ work := by
  rcases List.mem_append.mp h with h | h
  · simp only [ZkServiceRegister.behind] at h
    split at h
    · cases List.mem_singleton.mp h
    · cases h
  · exact h

/-- A store into the map makes the cache as right as what is stored. -/
theorem CacheFresh.store (h : CacheFresh nodes g) (hfresh : Fresh nodes g.zkCli path result)
    (hwork : ∀ path result clear, ZkWork.store path result clear ∈ work → .store path result clear ∈ g.work) :
    CacheFresh nodes { g with zkCli := g.zkCli.store path result, work := work } where
  cached other l hc := by
    by_cases hp : other = path
    · subst hp
      have hstored : some result = some l := ZkClient.store_self.symm.trans hc
      cases hstored
      exact .inl hfresh
    · exact h.cached other l ((ZkClient.store_other hp).symm.trans hc)
  watcher other l hw := h.watcher other l hw
  stores other l clear hs := h.stores other l clear (hwork other l clear hs)

/-- An answer makes no list wrong, and is right itself. -/
theorem CacheFresh.getChildren {clear : Bool} (h : CacheFresh nodes g) (hreply : reply.Children nodes path)
    (hok : reply.IsOk)
    (hwork : ∀ path result clear, ZkWork.store path result clear ∈ work → .store path result clear ∈ g.work) :
    CacheFresh nodes
      { g with
        zkCli := (g.zkCli.getChildren path reply).1
        work := .store path (g.zkCli.getChildren path reply).2 clear :: work } := by
  obtain ⟨hmap, hwatcher, -⟩ := getChildren_fields g.zkCli path reply
  have hrest : CacheFresh nodes { g with zkCli := (g.zkCli.getChildren path reply).1, work := work } :=
    h.mono hmap hwatcher hwork fun _ _ hf => hf.getChildren
  refine ⟨hrest.cached, hrest.watcher, fun other l clear' hs => ?_⟩
  rcases List.mem_cons.mp hs with he | hs
  · cases he
    exact fresh_answered hreply hok
  · exact hrest.stores other l clear' hs

/-- The list that the callback reads again is fresh, and no other list has needed the event. -/
theorem CacheFresh.serviceWatcher (h : CacheFresh nodes g)
    (hok : ∀ event ∈ g.zkCli.events.head?, event.type = .child →
      reply.IsOk ∧ ∀ w ∈ g.work, ¬w.Stores event.path)
    (hn : g.zkCli.serviceWatcher nodes reply = some cli) : CacheFresh nodes { g with zkCli := cli } := by
  simp only [ZkClient.serviceWatcher] at hn
  split at hn
  · rename_i path events hwatcher hevents
    obtain ⟨hreply, hn⟩ := Option.ite_none_right_eq_some.mp hn
    obtain ⟨hisOk, hwork⟩ := hok ⟨.child, path⟩ (by rw [hevents]; rfl) rfl
    cases hn
    have hfresh : ∀ other l, other ≠ path → Fresh nodes g.zkCli other l →
        Fresh nodes (({ g.zkCli with events := events } : ZkClient).getChildren path reply).1 other l := by
      refine fun other l hother hf => Fresh.getChildren (hf.imp id fun hin => ?_)
      rw [hevents] at hin
      exact (List.mem_cons.mp hin).resolve_left fun he => hother (ZkEvent.mk.inj he).2
    refine ⟨fun other l hc => ?_, fun other l hw => ?_, fun other l clear hs => ?_⟩
    · by_cases hother : other = path
      · exact .inr ⟨_, by rw [hother]⟩
      · rw [(getChildren_fields _ path reply).1] at hc
        rcases h.cached other l hc with hf | ⟨l', hl'⟩
        · exact .inl (hfresh other l hother hf)
        · rw [hwatcher] at hl'
          cases hl'
    · cases hw
      exact fresh_answered hreply hisOk
    · exact hfresh other l (fun he => hwork _ hs he) (h.stores other l clear hs)
  · rename_i path events hwatcher hevents
    cases hn
    refine h.mono rfl rfl (fun _ _ _ => id) fun other l hf => hf.imp id fun hin => ?_
    rw [hevents] at hin
    exact (List.mem_cons.mp hin).resolve_left nofun
  · cases hn

theorem CacheFresh.storeWatched (h : CacheFresh nodes g) (hn : g.zkCli.storeWatched = some cli) :
    CacheFresh nodes { g with zkCli := cli } := by
  obtain ⟨⟨path, result⟩, hwatcher, rfl⟩ := Option.map_eq_some_iff.mp hn
  have hfresh : Fresh nodes g.zkCli path result := h.watcher path result hwatcher
  have hstored : CacheFresh nodes { g with zkCli := g.zkCli.store path result } :=
    h.store hfresh fun _ _ _ => id
  refine ⟨fun other l hc => ?_, nofun, hstored.stores⟩
  by_cases hother : other = path
  · subst hother
    have hl : some result = some l := ZkClient.store_self.symm.trans hc
    cases hl
    exact .inl hfresh
  · refine (hstored.cached other l hc).imp id ?_
    rintro ⟨l', hl'⟩
    have hpath := Option.some.inj (hwatcher.symm.trans hl')
    exact absurd (Prod.mk.inj hpath).1.symm hother

theorem Guarded.runWork {w : ZkWork} (h : Guarded s c) (hwork : (s.registers r).work = w :: work)
    (hok : w.KeepsWatch (s.registers c).zkCli (r = c) reply) (hn : s.runWork r reply work w = some s') :
    Guarded s' c := by
  have hrest : ∀ path result clear, ZkWork.store path result clear ∈ work →
      .store path result clear ∈ (s.registers r).work := fun _ _ _ hs => hwork ▸ List.mem_cons_of_mem w hs
  have hbefore : ∀ {first : ZkWork}, (∀ path result clear, ZkWork.store path result clear ≠ first) →
      ∀ path result clear, ZkWork.store path result clear ∈ first :: work →
        .store path result clear ∈ (s.registers r).work := fun hfirst path result clear hs =>
    hrest _ _ _ ((List.mem_cons.mp hs).resolve_left (hfirst path result clear))
  cases w with
  | create path =>
      obtain ⟨-, hn⟩ := Option.ite_none_right_eq_some.mp hn
      cases hn
      split
      · exact h.setWork (hbefore nofun)
      · exact h.setWork hrest
  | zooCreate path =>
      simp only [Zookeeper.runWork] at hn
      split at hn
      · obtain ⟨s₁, hs₁, rfl⟩ := Option.map_eq_some_iff.mp hn
        obtain ⟨hguarded, hsame⟩ := h.zooCreate hs₁
        exact hguarded.setWork (by rw [hsame]; exact hrest)
      · cases hn
        exact h.setWork hrest
      · cases hn
        exact h.setWork hrest
  | deleteNode path =>
      obtain ⟨-, hn⟩ := Option.ite_none_right_eq_some.mp hn
      cases hn
      split
      · exact h.setWork hrest
      · exact h.setWork (hbefore nofun)
  | zooDelete path =>
      simp only [Zookeeper.runWork] at hn
      split at hn
      · obtain ⟨s₁, hs₁, rfl⟩ := Option.map_eq_some_iff.mp hn
        obtain ⟨hguarded, hsame⟩ := h.zooDelete (hok trivial) hs₁
        exact hguarded.setWork (by rw [hsame]; exact hrest)
      · cases hn
        exact h.setWork hrest
      · cases hn
        exact h.setWork hrest
  | getChildrenNodes path clear =>
      simp only [Zookeeper.runWork] at hn
      split at hn
      · cases hn
        exact h.setWork fun _ _ _ hs => hrest _ _ _ (store_behind hs)
      · rename_i hmiss
        obtain ⟨hreply, hn⟩ := Option.ite_none_right_eq_some.mp hn
        cases hn
        rw [setClient_setWork]
        refine h.set ?_
        rintro rfl hconnected
        obtain ⟨hisOk, hplain⟩ := hok rfl hmiss
        rw [cStr_eq hplain] at hreply hconnected ⊢
        have hcache := h ((getChildren_fields (s.registers r).zkCli path reply).2.2 ▸ hconnected)
        exact hcache.getChildren hreply hisOk hrest
  | store path result clear =>
      cases hn
      rw [setClient_setWork]
      refine h.set ?_
      rintro rfl hconnected
      have hcache := h hconnected
      have hfresh := hcache.stores path result clear (by rw [hwork]; exact List.mem_cons_self)
      exact hcache.store hfresh fun _ _ _ hs => hrest _ _ _ (store_behind hs)
  | stop =>
      cases hn
      rw [setClient_setWork]
      exact h.set fun _ => nofun

theorem serviceWatcher_isConnected (hn : cli.serviceWatcher nodes reply = some cli') :
    cli'.isConnected = cli.isConnected := by
  simp only [ZkClient.serviceWatcher] at hn
  split at hn
  · obtain ⟨-, hn⟩ := Option.ite_none_right_eq_some.mp hn
    cases hn
    exact (getChildren_fields _ _ reply).2.2
  · cases hn
    rfl
  · cases hn

theorem guarded_step {l : ZkStep R} (h : Guarded s c) (hok : KeepsWatch c s l) (hn : zkNext s l = some s') :
    Guarded s' c := by
  cases l with
  | register r service addr =>
      obtain ⟨hfree, hn⟩ := Option.ite_none_right_eq_some.mp hn
      cases hn
      exact h.call hfree.1 rfl (by simp [ZkServiceRegister.register])
  | discover r serviceName =>
      obtain ⟨hfree, hn⟩ := Option.ite_none_right_eq_some.mp hn
      cases hn
      exact h.call hfree.1 rfl (by simp [ZkServiceRegister.discover])
  | clear r paths services =>
      obtain ⟨hfree, hn⟩ := Option.ite_none_right_eq_some.mp hn
      cases hn
      exact h.call hfree.1 rfl (by simp [ZkServiceRegister.clear])
  | work r reply =>
      simp only [zkNext] at hn
      split at hn
      · cases hn
      · rename_i w work hwork
        exact h.runWork hwork (hok w (by rw [hwork]; rfl)) hn
  | serviceWatcher r reply =>
      obtain ⟨cli, hcli, rfl⟩ := Option.map_eq_some_iff.mp hn
      refine h.set ?_
      rintro rfl hconnected
      exact (h (serviceWatcher_isConnected hcli ▸ hconnected)).serviceWatcher (hok rfl) hcli
  | storeWatched r =>
      obtain ⟨cli, hcli, rfl⟩ := Option.map_eq_some_iff.mp hn
      refine h.set ?_
      rintro rfl hconnected
      obtain ⟨watched, -, rfl⟩ := Option.map_eq_some_iff.mp hcli
      exact (h hconnected).storeWatched hcli

/-! ## Runs -/

omit [DecidableEq R] in
theorem guarded_start (h : ZkStart s) : Guarded s c := by
  intro hconnected
  rw [h c]
  exact ⟨nofun, nofun, fun path result clear hs => absurd (List.mem_singleton.mp hs) nofun⟩

theorem Fresh.perm (h : Fresh nodes cli path result) (hout : ¬cli.Outstanding path) :
    result.Perm (nodes.children path) := by
  rcases h with ⟨-, hperm⟩ | hevent
  · exact hperm
  · exact absurd (.inl ⟨_, hevent, rfl⟩) hout

theorem CacheFresh.cached_perm (h : CacheFresh nodes g) (hout : ¬g.zkCli.Outstanding path)
    (hc : g.zkCli.childrenNodesMap path = some result) : result.Perm (nodes.children path) := by
  rcases h.cached path result hc with hf | hw
  · exact hf.perm hout
  · exact absurd (.inr hw) hout

theorem CacheFresh.discovered_perm (h : CacheFresh nodes g) (hout : ¬g.zkCli.Outstanding path)
    (hd : g.discovered path = some result) : result.Perm (nodes.children path) := by
  simp only [ZkServiceRegister.discovered] at hd
  split at hd
  · obtain ⟨rfl, hd⟩ := Option.ite_none_right_eq_some.mp hd
    exact h.cached_perm hout hd
  · rename_i asked stored work hwork
    obtain ⟨rfl, hstored⟩ := Option.ite_none_right_eq_some.mp hd
    cases hstored
    exact (h.stores asked result false (by rw [hwork]; exact List.mem_cons_self)).perm hout
  · cases hd

/-- In every run in which each watch of a client is set and stays, the cache of the client is coherent. -/
theorem cache_coherent (h : Reachable zkNext ZkStart (KeepsWatch c) s) : Coherent s c := by
  have hguarded : Guarded s c :=
    h.invariant (I := fun s => Guarded s c) (fun _ hs => guarded_start hs) fun _ _ _ hI hok hn => guarded_step hI hok hn
  refine ⟨fun hc path result hout hm => (hguarded hc).cached_perm hout hm, fun hc path result hout hd addr => ?_⟩
  rw [((hguarded hc).discovered_perm hout hd).mem_iff, PathTree.mem_children]

/-! ## One service -/

/-- The server has kept these nodes. Register `true` is going to serve, and `false` is a client. -/
def serverWith (paths : List Bytes) (nodup : paths.Nodup) (named : ∀ path ∈ paths, slash ∈ path)
    (no_nul : ∀ path ∈ paths, 0 ∉ path) : Zookeeper Bool where
  nodes := { paths := paths, nodup := nodup, named := named, no_nul := no_nul }
  registers := fun _ => { work := [.create ROOT_PATH] }

def addressOne : Bytes := text "10.0.0.1:80"

/-- The client has asked for a service that has no address yet, and then the server registers one. -/
theorem coherent_behind_first : ∃ s : Zookeeper Bool,
    (s.registers false).zkCli.childrenNodesMap (servicePath (text "S")) = some [addressOne] ∧ Coherent s false := by
  let s₀ := serverWith [ROOT_PATH, servicePath (text "S")] (by decide) (by decide) (by decide)
  let ls : List (ZkStep Bool) :=
    [.work true (.ok []), .work false (.ok []), .discover false (text "S"), .work false (.ok []), .work false (.ok []),
      .register true (.protobuf (text "S")) addressOne, .work true (.ok []), .work true .noNode, .work true (.ok []),
      .serviceWatcher false (.ok [addressOne]), .storeWatched false]
  obtain ⟨s, hs, hcached⟩ : ∃ s, runLabels zkNext s₀ ls = some s ∧
      (s.registers false).zkCli.childrenNodesMap (servicePath (text "S")) = some [addressOne] := ⟨_, rfl, rfl⟩
  have hok : RunOk zkNext (KeepsWatch false) s₀ ls := by decide
  have hstart : Reachable zkNext ZkStart (KeepsWatch false) s₀ := .start fun _ => rfl
  exact ⟨s, hcached, cache_coherent (hstart.of_runOk hok hs)⟩

/-- The client has asked before the service was there: it has cached that there is no address, and with no watch it
does not learn of the one that is registered behind it. -/
theorem coherent_not_before_first : ∃ s : Zookeeper Bool, Reachable zkNext ZkStart anyStep s ∧
    (s.registers false).zkCli.events = [] ∧
    (s.registers false).zkCli.childrenNodesMap (servicePath (text "S")) = some [] ∧
    s.nodes.children (servicePath (text "S")) = [addressOne] ∧ ¬Coherent s false := by
  let s₀ := serverWith [ROOT_PATH] (by decide) (by decide) (by decide)
  let ls : List (ZkStep Bool) :=
    [.work true (.ok []), .work false (.ok []), .discover false (text "S"), .work false .noNode, .work false (.ok []),
      .register true (.protobuf (text "S")) addressOne, .work true .noNode, .work true (.ok []), .work true .noNode,
      .work true (.ok [])]
  obtain ⟨s, hs, hevents, hconnected, hwatcher, hcached, hchildren⟩ : ∃ s, runLabels zkNext s₀ ls = some s ∧
      (s.registers false).zkCli.events = [] ∧ (s.registers false).zkCli.isConnected = true ∧
      (s.registers false).zkCli.watcher = none ∧
      (s.registers false).zkCli.childrenNodesMap (servicePath (text "S")) = some [] ∧
      s.nodes.children (servicePath (text "S")) = [addressOne] := ⟨_, rfl, rfl, rfl, rfl, rfl, rfl⟩
  have hstart : Reachable zkNext ZkStart anyStep s₀ := .start fun _ => rfl
  refine ⟨s, hstart.of_run hs, hevents, hcached, hchildren, fun h => ?_⟩
  have hout : ¬(s.registers false).zkCli.Outstanding (servicePath (text "S")) := by
    rintro (⟨event, hin, -⟩ | ⟨result, hw⟩)
    · rw [hevents] at hin
      cases hin
    · rw [hwatcher] at hw
      cases hw
  have hperm := h.cached hconnected _ _ hout hcached
  rw [hchildren] at hperm
  exact absurd hperm.length_eq nofun

end Tirpc
