/- Unit: TrendingPipeline/Base/LookAside
   source: none (general)
   digest: Clients of one unreliable key-value store, and look-aside caching in it. -/

import Mathlib.Logic.Function.Basic
import TrendingPipeline.Base.Runs

set_option autoImplicit false
set_option relaxedAutoImplicit false

namespace TrendingPipeline.Base.LookAside

open TrendingPipeline.Base.Runs

variable {Key Text Res : Type}

/-- A program that reads and writes a store and ends with a reply. -/
inductive Client (Key Text Res : Type)
  | reply (r : Res)
  | get (key : Key) (next : Option Text → Client Key Text Res)
  | set (key : Key) (text : Text) (next : Client Key Text Res)

/-- A client that stores only what `ok` allows and, as long as it finds only such
entries, ends with a good reply. -/
def Client.Honest (ok : Key → Text → Prop) (good : Res → Prop) : Client Key Text Res → Prop
  | .reply r => good r
  | .get key next =>
      (next none).Honest ok good ∧ ∀ text, ok key text → (next (some text)).Honest ok good
  | .set key text next => ok key text ∧ next.Honest ok good

/-- A request that is answered from the entry under its key if there is a readable
one. Otherwise the backing source answers: `miss` is the text stored for the
answer and the answer, or `none` if the source fails. -/
structure Request (Key Text Res : Type) where
  key : Key
  read : Text → Option Res
  miss : Option (Text × Res)
  read_miss : ∀ p, miss = some p → read p.1 = some p.2

namespace Request

def direct (r : Request Key Text Res) : Option Res := r.miss.map Prod.snd

def fill (r : Request Key Text Res) : Client Key Text (Option Res) :=
  match r.miss with
  | some (text, res) => .set r.key text (.reply (some res))
  | none => .reply none

def client (r : Request Key Text Res) : Client Key Text (Option Res) :=
  .get r.key fun found =>
    match found.bind r.read with
    | some res => .reply (some res)
    | none => r.fill

/-- What one request stores, the other reads as its own answer. -/
def Agree (r r' : Request Key Text Res) : Prop :=
  r.key = r'.key → ∀ p, r.miss = some p → ∀ res, r'.read p.1 = some res → r'.direct = some res

def map {Out : Type} (f : Res → Out) (r : Request Key Text Res) : Request Key Text Out where
  key := r.key
  read text := (r.read text).map f
  miss := r.miss.map fun p => (p.1, f p.2)
  read_miss p hp := by
    obtain ⟨q, hq, rfl⟩ := Option.map_eq_some_iff.mp hp
    rw [r.read_miss q hq]
    rfl

@[simp] theorem direct_map {Out : Type} (f : Res → Out) (r : Request Key Text Res) :
    (r.map f).direct = r.direct.map f := by
  simp [map, direct, Option.map_map, Function.comp_def]

theorem agree_self (r : Request Key Text Res) : r.Agree r := by
  intro _ p hp res hres
  rw [r.read_miss p hp] at hres
  rw [direct, hp]
  exact hres

def Stored (requests : List (Request Key Text Res)) (key : Key) (text : Text) : Prop :=
  ∃ r ∈ requests, r.key = key ∧ ∃ res, r.miss = some (text, res)

def Owed (requests : List (Request Key Text Res)) (r : Request Key Text Res)
    (res : Option Res) : Prop :=
  (∀ r' ∈ requests, r'.Agree r) → res = r.direct

private theorem fill_honest {requests : List (Request Key Text Res)} {r : Request Key Text Res}
    (hr : r ∈ requests) : r.fill.Honest (Stored requests) (Owed requests r) := by
  rw [fill]
  cases hmiss : r.miss with
  | none =>
      intro _
      rw [direct, hmiss]
      rfl
  | some p =>
      refine ⟨⟨r, hr, rfl, p.2, hmiss⟩, ?_⟩
      intro _
      rw [direct, hmiss]
      rfl

private theorem client_honest {requests : List (Request Key Text Res)} {r : Request Key Text Res}
    (hr : r ∈ requests) : r.client.Honest (Stored requests) (Owed requests r) := by
  refine ⟨fill_honest hr, ?_⟩
  intro text htext
  cases hread : r.read text with
  | none => simpa [hread] using fill_honest hr
  | some res =>
      obtain ⟨r', hr', hkey, res', hmiss⟩ := htext
      simp only [Option.bind_some, hread]
      intro hagree
      exact (hagree r' hr' hkey _ hmiss res hread).symm

end Request

structure State (Key Text Res : Type) where
  store : Key → Option Text
  clients : List (Client Key Text Res)

/-- The next command of a client, which may fail, or the end of an entry. -/
inductive Act (Key : Type)
  | advance (i : Nat) (fails : Bool)
  | expire (key : Key)

/-- All clients are about to start, on an empty store. -/
def start (clients : List (Client Key Text Res)) : State Key Text Res where
  store _ := none
  clients := clients

/-- Every entry is allowed and every client is honest about the replies it owes. -/
structure Sound (ok : Key → Text → Prop) (good : Nat → Res → Prop)
    (s : State Key Text Res) : Prop where
  entries : ∀ key text, s.store key = some text → ok key text
  clients : ∀ i c, s.clients[i]? = some c → Client.Honest ok (good i) c

variable {ok : Key → Text → Prop} {good : Nat → Res → Prop}

private theorem Sound.set_client {s : State Key Text Res} (h : Sound ok good s)
    {store : Key → Option Text}
    (hstore : ∀ key text, store key = some text → ok key text) {i : Nat}
    {c : Client Key Text Res} (hc : c.Honest ok (good i)) :
    Sound ok good { store := store, clients := s.clients.set i c } := by
  refine ⟨hstore, ?_⟩
  intro j d hd
  rw [List.getElem?_set] at hd
  split at hd
  · next hij =>
      split at hd
      · obtain rfl := Option.some.inj hd
        exact hij ▸ hc
      · cases hd
  · exact h.clients j d hd

variable [DecidableEq Key]

/-- A failed read finds nothing and a failed write stores nothing. -/
def step (s : State Key Text Res) : Act Key → Option (State Key Text Res)
  | .advance i fails =>
      match s.clients[i]? with
      | some (.get key next) =>
          let found := if fails then none else s.store key
          some { s with clients := s.clients.set i (next found) }
      | some (.set key text next) =>
          let store := if fails then s.store else Function.update s.store key (some text)
          some { store := store, clients := s.clients.set i next }
      | _ => none
  | .expire key => some { s with store := Function.update s.store key none }

/-- The states any interleaving of the clients and any behaviour of the store lead to. -/
def Served (clients : List (Client Key Text Res)) (s : State Key Text Res) : Prop :=
  Reachable (· = start clients) step (fun _ _ => True) s

theorem Sound.step {s t : State Key Text Res} {a : Act Key} (h : Sound ok good s)
    (hstep : LookAside.step s a = some t) : Sound ok good t := by
  cases a with
  | expire key =>
      obtain rfl := Option.some.inj hstep
      refine ⟨?_, h.clients⟩
      intro key' text hentry
      simp only [Function.update_apply] at hentry
      split at hentry
      · cases hentry
      · exact h.entries key' text hentry
  | advance i fails =>
      simp only [LookAside.step] at hstep
      split at hstep
      · next key next hclient =>
          obtain rfl := Option.some.inj hstep
          obtain ⟨hnone, hsome⟩ := h.clients i _ hclient
          refine h.set_client h.entries ?_
          cases hfound : (if fails then none else s.store key) with
          | none => exact hnone
          | some text =>
              refine hsome text (h.entries key text ?_)
              split at hfound
              · cases hfound
              · exact hfound
      · next key text next hclient =>
          obtain rfl := Option.some.inj hstep
          obtain ⟨hok, hnext⟩ := h.clients i _ hclient
          refine h.set_client ?_ hnext
          intro key' text' hentry
          split at hentry
          · exact h.entries key' text' hentry
          · rw [Function.update_apply] at hentry
            split at hentry
            · next hkey =>
                obtain rfl := Option.some.inj hentry
                exact hkey ▸ hok
            · exact h.entries key' text' hentry
      · cases hstep

/-- Clients that are honest together get good replies, however they interleave and
whatever the store loses. -/
theorem Sound.served {clients : List (Client Key Text Res)}
    (h : ∀ i c, clients[i]? = some c → Client.Honest ok (good i) c) {s : State Key Text Res}
    (hs : Served clients s) : Sound ok good s := by
  refine hs.invariant ?_ (fun s a t hsound _ hstep => hsound.step hstep)
  rintro _ rfl
  exact ⟨fun _ _ hentry => (by cases hentry), h⟩

def Transparent (requests : List (Request Key Text Res)) : Prop :=
  ∀ s, Served (requests.map Request.client) s →
    ∀ (i : Nat) (res : Option Res) (r : Request Key Text Res),
      s.clients[i]? = some (.reply res) → requests[i]? = some r → res = r.direct

/-- A request every other request agrees with gets the answer of the backing source. -/
theorem reply_eq_direct {requests : List (Request Key Text Res)}
    {s : State Key Text (Option Res)} (hs : Served (requests.map Request.client) s) {i : Nat}
    {res : Option Res} {r : Request Key Text Res} (hreply : s.clients[i]? = some (.reply res))
    (hr : requests[i]? = some r) (hagree : ∀ r' ∈ requests, r'.Agree r) : res = r.direct := by
  have hsound : Sound (Request.Stored requests)
      (fun i res => (requests[i]?).elim True fun q => q.Owed requests res) s := by
    refine Sound.served ?_ hs
    intro i c hc
    rw [List.getElem?_map] at hc
    obtain ⟨q, hq, rfl⟩ := Option.map_eq_some_iff.mp hc
    simp only [hq, Option.elim_some]
    exact q.client_honest (List.mem_of_getElem? hq)
  have howed := hsound.clients i _ hreply
  simp only [Client.Honest, hr, Option.elim_some] at howed
  exact howed hagree

theorem transparent_of_agree {requests : List (Request Key Text Res)}
    (h : ∀ r ∈ requests, ∀ r' ∈ requests, r.Agree r') : Transparent requests := by
  intro s hs i res r hreply hr
  exact reply_eq_direct hs hreply hr fun r' hr' => h r' hr' r (List.mem_of_getElem? hr)

/-- If the first of two clients with one key misses and stores its answer before
the second reads, the second gets what it reads in that answer. -/
private theorem served_hit {requests : List (Request Key Text Res)} {i j : Nat} (hij : i ≠ j)
    {r r' : Request Key Text Res} (hi : requests[i]? = some r) (hj : requests[j]? = some r')
    (hkey : r.key = r'.key) {p : Text × Res} (hmiss : r.miss = some p) {res : Res}
    (hread : r'.read p.1 = some res) :
    ∃ s, Served (requests.map Request.client) s ∧ s.clients[j]? = some (.reply (some res)) := by
  let clients := requests.map Request.client
  have hci : clients[i]? = some r.client := by
    rw [List.getElem?_map, hi, Option.map_some]
  have hcj : clients[j]? = some r'.client := by
    rw [List.getElem?_map, hj, Option.map_some]
  have hilt := (List.getElem?_eq_some_iff.mp hci).1
  have hjlt := (List.getElem?_eq_some_iff.mp hcj).1
  have hfill : r.fill = .set r.key p.1 (.reply (some p.2)) := by rw [Request.fill, hmiss]
  have hget : step (start clients) (.advance i false) =
      some { store := fun _ => none, clients := clients.set i r.fill } := by
    simp [step, start, hci, Request.client]
  have hset : step { store := fun _ => none, clients := clients.set i r.fill }
      (.advance i false) = some
        { store := Function.update (fun _ => none) r.key (some p.1)
          clients := clients.set i (.reply (some p.2)) } := by
    simp [step, hilt, hfill]
  have hfind : step
      { store := Function.update (fun _ => none) r.key (some p.1)
        clients := clients.set i (.reply (some p.2)) } (.advance j false) = some
        { store := Function.update (fun _ => none) r.key (some p.1)
          clients := (clients.set i (.reply (some p.2))).set j (.reply (some res)) } := by
    simp [step, List.getElem?_set_ne hij, hcj, Request.client, hkey, hread]
  have hstart : Served clients (start clients) := ⟨_, rfl, .refl⟩
  have hserved := ((hstart.next trivial hget).next trivial hset).next trivial hfind
  exact ⟨_, hserved, by simp [hjlt]⟩

theorem agree_of_transparent {requests : List (Request Key Text Res)}
    (h : Transparent requests) {r r' : Request Key Text Res} (hr : r ∈ requests)
    (hr' : r' ∈ requests) : r.Agree r' := by
  intro hkey p hmiss res hread
  obtain ⟨i, hi⟩ := List.mem_iff_getElem?.mp hr
  obtain ⟨j, hj⟩ := List.mem_iff_getElem?.mp hr'
  rcases eq_or_ne i j with rfl | hij
  · obtain rfl := Option.some.inj (hi.symm.trans hj)
    exact r.agree_self rfl p hmiss res hread
  · obtain ⟨s, hs, hreply⟩ := served_hit hij hi hj hkey hmiss hread
    exact (h s hs j _ r' hreply hj).symm

end TrendingPipeline.Base.LookAside
