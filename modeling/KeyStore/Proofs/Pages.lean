import KeyStore.Proofs.Matching
import KeyStore.Proofs.Scan

/-! Scans as a whole. A scan asks for page after page and passes each cursor on; anything may happen
between two pages. The hashes are fixed, each page takes up a stretch of them where the page before
ended, and so no key is listed twice, and none is missed that was there whenever its page was made. -/
namespace KeyStore

namespace Glob

theorem isMatch_of_isMatchAll {g : Glob} (h : g.isMatchAll = true) (subject : Bytes) :
    g.isMatch subject = true := by
  have htokens : g.tokens = [.star] := eq_of_beq h
  rw [isMatch_iff, htokens]
  exact ⟨[subject], .cons (.star subject) .nil, (List.append_nil subject).symm⟩

end Glob

structure Query where
  pattern : Option Bytes
  kind : Option String

namespace Query

def Selects (q : Query) (key : Key) (entry : Entry) : Prop :=
  (∀ p ∈ q.pattern, (Glob.ofBytes p).isMatch key = true) ∧
    ∀ t ∈ q.kind, (Bytes.ofString entry.value.kind.name).isWord t = true

/-- That a key is there and selected. -/
def Shows (q : Query) (ks : Keyspace) (key : Key) : Prop :=
  ∃ entry, ks.live key = some entry ∧ q.Selects key entry

theorem scanFilter_iff (q : Query) (key : Key) (entry : Entry) :
    Engine.scanFilter q.pattern q.kind key entry = true ↔ q.Selects key entry := by
  have hpattern : ((q.pattern.map Glob.ofBytes).filter fun g => !g.isMatchAll).all
      (·.isMatch key) = true ↔ ∀ p ∈ q.pattern, (Glob.ofBytes p).isMatch key = true := by
    cases q.pattern with
    | none => simp
    | some p =>
      cases hall : (Glob.ofBytes p).isMatchAll with
      | true => simp [Option.filter, hall, Glob.isMatch_of_isMatchAll hall]
      | false => simp [Option.filter, hall]
  have hkind : q.kind.all (Bytes.isWord (Bytes.ofString entry.value.kind.name)) = true ↔
      ∀ t ∈ q.kind, (Bytes.ofString entry.value.kind.name).isWord t = true := by
    cases q.kind <;> simp
  simp only [Engine.scanFilter, Selects]
  rw [Bool.and_eq_true, hpattern, hkind]

theorem shows_iff (q : Query) (ks : Keyspace) (key : Key) :
    q.Shows ks key ↔ (ks.live key).any (Engine.scanFilter q.pattern q.kind key) = true := by
  rw [Option.any_eq_true]
  constructor
  · rintro ⟨e, he, hs⟩
    exact ⟨e, he, (q.scanFilter_iff key e).mpr hs⟩
  · rintro ⟨e, he, hs⟩
    exact ⟨e, he, (q.scanFilter_iff key e).mp hs⟩

end Query

/-- A call of `SCAN`: the engine that it finds, its cursor, the size it asks for and its time. -/
structure Page (Q : Type) where
  engine : Engine Q
  cursor : UInt64
  count : Option Nat
  nanos : Nat

namespace Page

def command (p : Page Q) (q : Query) : Command := .onServer (.scan p.cursor q.pattern p.count q.kind)

def found (p : Page Q) (q : Query) : UInt64 × List Key :=
  (p.engine.keyspace.scan p.cursor (p.count.getD p.engine.config.scanCount)
    (Engine.scanFilter q.pattern q.kind)).1

def next (p : Page Q) (q : Query) : UInt64 := (p.found q).1

def keys (p : Page Q) (q : Query) : List Key := (p.found q).2

theorem execute_command (p : Page Q) (q : Query) :
    (p.engine.execute (p.command q) p.nanos).1 =
      .ok (.array [.text (toString (p.next q)), .bulks (p.keys q)]) := rfl

/-- While nothing has expired, a page only counts as a call. -/
theorem execute_snd_of_live (p : Page Q) (q : Query)
    (h : ∀ k ∈ p.engine.keyspace.cells.keys, (p.engine.keyspace.live k).isSome) :
    (p.engine.execute (p.command q) p.nanos).2 = p.engine.record "scan" p.nanos (.ok .ok) := by
  have hscan := p.engine.keyspace.scan_snd_of_live p.cursor
    (p.count.getD p.engine.config.scanCount) (Engine.scanFilter q.pattern q.kind) h
  exact congrArg (fun ks => { p.engine with keyspace := ks }.record "scan" p.nanos (.ok .ok)) hscan

/-- That a page is the next of a scan: it takes the cursor that was returned, and finds the engine
after whatever happened in between. -/
def Follows (q : Query) (p p' : Page Q) : Prop :=
  p.next q ≠ 0 ∧ p'.cursor = p.next q ∧
    ∃ evs, p'.engine = (p.engine.execute (p.command q) p.nanos).2.run evs

theorem Follows.hash {q : Query} {p p' : Page Q} (h : Follows q p p') :
    p'.engine.keyspace.hash = p.engine.keyspace.hash := by
  obtain ⟨-, -, evs, hrun⟩ := h
  rw [hrun]
  exact p.engine.hash_run (.execute (p.command q) p.nanos :: evs)

theorem isPage (p : Page Q) (q : Query) : p.engine.keyspace.IsPage p.cursor
    (Engine.scanFilter q.pattern q.kind) (p.found q) := Keyspace.scan_isPage ..

theorem mem_keys (p : Page Q) (q : Query) (k : Key) :
    k ∈ p.keys q ↔ p.cursor ≤ p.engine.keyspace.hash k ∧
      (p.next q = 0 ∨ p.engine.keyspace.hash k < p.next q) ∧ q.Shows p.engine.keyspace k := by
  rw [q.shows_iff]
  exact (p.isPage q).mem k

/-- The pages of a scan, as far as it has come. -/
inductive Scans (q : Query) : List (Page Q) → Prop
  | first (p : Page Q) : Scans q [p]
  | cons {p p' : Page Q} {ps : List (Page Q)} :
    Follows q p p' → Scans q (p' :: ps) → Scans q (p :: p' :: ps)

namespace Scans
variable {q : Query}

theorem cursor_le_hash {p : Page Q} {ps : List (Page Q)} (h : Scans q (p :: ps)) (k : Key)
    (hk : k ∈ (p :: ps).flatMap (·.keys q)) : p.cursor ≤ p.engine.keyspace.hash k := by
  induction ps generalizing p with
  | nil =>
    rw [List.flatMap_singleton] at hk
    exact ((p.mem_keys q k).mp hk).1
  | cons p' ps ih =>
    cases h with
    | cons hf hrest =>
      have hhash := hf.hash
      obtain ⟨hne, hcursor, -⟩ := hf
      rw [List.flatMap_cons] at hk
      rcases List.mem_append.mp hk with hk | hk
      · exact ((p.mem_keys q k).mp hk).1
      · have hle : p.next q ≤ p.engine.keyspace.hash k := by
          rw [← hcursor, ← hhash]
          exact ih hrest hk
        exact UInt64.le_trans (UInt64.le_of_lt ((p.isPage q).cursor_lt hne)) hle

theorem nodup_keys {ps : List (Page Q)} (h : Scans q ps) : (ps.flatMap (·.keys q)).Nodup := by
  induction h with
  | first p =>
    rw [List.flatMap_singleton]
    exact (p.isPage q).nodup
  | @cons p p' ps hf hrest ih =>
    have hhash := hf.hash
    obtain ⟨hne, hcursor, -⟩ := hf
    rw [List.flatMap_cons]
    refine List.nodup_append.mpr ⟨(p.isPage q).nodup, ih, ?_⟩
    rintro k hk _ hk' rfl
    have hge : p.next q ≤ p.engine.keyspace.hash k := by
      rw [← hcursor, ← hhash]
      exact hrest.cursor_le_hash k hk'
    obtain ⟨-, hlt, -⟩ := (p.mem_keys q k).mp hk
    exact UInt64.not_lt.mpr hge (hlt.resolve_left hne)

/-- A key that is there at every page is listed, if the first page begins at or before its hash and
the last one reaches the end. -/
theorem mem_keys_of_shows {p : Page Q} {ps : List (Page Q)} (h : Scans q (p :: ps)) (k : Key)
    (hcursor : p.cursor ≤ p.engine.keyspace.hash k)
    (hlast : (p :: ps).getLast?.map (·.next q) = some 0)
    (hshows : ∀ p' ∈ p :: ps, q.Shows p'.engine.keyspace k) :
    k ∈ (p :: ps).flatMap (·.keys q) := by
  induction ps generalizing p with
  | nil =>
    have hzero : p.next q = 0 := Option.some.inj hlast
    rw [List.flatMap_singleton]
    exact (p.mem_keys q k).mpr ⟨hcursor, .inl hzero, hshows p List.mem_cons_self⟩
  | cons p' ps ih =>
    cases h with
    | cons hf hrest =>
      rw [List.flatMap_cons, List.mem_append]
      by_cases hlt : p.engine.keyspace.hash k < p.next q
      · exact .inl ((p.mem_keys q k).mpr ⟨hcursor, .inr hlt, hshows p List.mem_cons_self⟩)
      · right
        apply ih hrest
        · rw [hf.2.1, hf.hash]
          exact UInt64.not_lt.mp hlt
        · rw [← hlast, List.getLast?_cons_cons]
        · exact fun p'' hp => hshows p'' (List.mem_cons_of_mem p hp)

end Scans
end Page

/-- What a scan shows. Each page replies with the next cursor, which is larger unless it is zero, and
with keys that are there and selected. No key is listed twice. If the scan began at zero and has come
back to zero, each key that was there and selected at every page is listed once. -/
theorem scan_covers (q : Query) (pages : List (Page Q)) (h : Page.Scans q pages) :
    (∀ p ∈ pages,
      (p.engine.execute (p.command q) p.nanos).1 =
        .ok (.array [.text (toString (p.next q)), .bulks (p.keys q)]) ∧
      (p.next q ≠ 0 → p.cursor < p.next q) ∧
      ∀ k ∈ p.keys q, q.Shows p.engine.keyspace k) ∧
    (pages.flatMap (·.keys q)).Nodup ∧
    (pages.head?.map (·.cursor) = some 0 → pages.getLast?.map (·.next q) = some 0 →
      ∀ k, (∀ p ∈ pages, q.Shows p.engine.keyspace k) → (pages.flatMap (·.keys q)).count k = 1) := by
  have hnodup := h.nodup_keys
  refine ⟨fun p _ => ⟨p.execute_command q, (p.isPage q).cursor_lt, ?_⟩, hnodup, ?_⟩
  · intro k hk
    exact ((p.mem_keys q k).mp hk).2.2
  · intro hfirst hlast k hshows
    cases pages with
    | nil => cases hfirst
    | cons p ps =>
      have hzero : p.cursor = 0 := Option.some.inj hfirst
      have hmem : k ∈ (p :: ps).flatMap (·.keys q) := by
        apply h.mem_keys_of_shows k _ hlast hshows
        rw [hzero]
        exact UInt64.zero_le
      rw [hnodup.count, if_pos hmem]

/-- A key has the hash zero and the others share one. Between the pages the first, which was listed,
is made anew, and one of the others expires. -/
theorem scan_covers_of_collision :
    let hash : Key → UInt64 := fun key => if key = [97] then 0 else 5
    let set (key : Key) (expiry : SetExpiry) : Event :=
      .execute (.onKeys (.set key [120] { expiry })) 0
    let q : Query := ⟨some [42], some "STRING"⟩
    let e := (Engine.new .default { Base.standard with hash }).run
      [set [97] .clear, set [98] .clear, set [99] .clear, set [100] (.after 5)]
    let p : Page Queue := ⟨e, 0, some 1, 0⟩
    let evs : List Event := [.execute (.onKeys (.del [[97]])) 0, set [97] .clear, .advance 5]
    let p' : Page Queue := ⟨(e.execute (p.command q) 0).2.run evs, 5, some 1, 0⟩
    p.found q = (5, [[97]]) ∧ p'.found q = (0, [[98], [99]]) ∧
      ([p, p'].flatMap (·.keys q)).Nodup ∧ ([p, p'].flatMap (·.keys q)).count [98] = 1 := by
  intro hash set q e p evs p'
  have hp : p.found q = (5, [[97]]) := by
    rw [Page.found, Keyspace.scan_fst, Keyspace.candidates, List.mergeSort_of_pairwise (by decide)]
    decide
  have hafter := p.execute_snd_of_live q (by decide)
  have hengine : p'.engine = (e.record "scan" 0 (.ok .ok)).run evs := congrArg (·.run evs) hafter
  have hp' : p'.found q = (0, [[98], [99]]) := by
    rw [Page.found, hengine, Keyspace.scan_fst, Keyspace.candidates,
      List.mergeSort_of_pairwise (by decide)]
    decide
  have hnext : p.next q = 5 := congrArg Prod.fst hp
  have hnext' : p'.next q = 0 := congrArg Prod.fst hp'
  have hkeys : p'.keys q = [[98], [99]] := congrArg Prod.snd hp'
  have hfollows : Page.Follows q p p' := ⟨by rw [hnext]; decide, hnext.symm, evs, rfl⟩
  obtain ⟨-, hnodup, hcount⟩ := scan_covers q [p, p'] (.cons hfollows (.first p'))
  have hshows : q.Shows p.engine.keyspace [98] := (q.shows_iff _ _).mpr (by decide)
  have hshows' : q.Shows p'.engine.keyspace [98] := by
    have hmem : [98] ∈ p'.keys q := by
      rw [hkeys]
      exact List.mem_cons_self
    exact ((p'.mem_keys q [98]).mp hmem).2.2
  have hboth : ∀ p'' ∈ [p, p'], q.Shows p''.engine.keyspace [98] :=
    List.forall_mem_cons.mpr ⟨hshows, List.forall_mem_singleton.mpr hshows'⟩
  exact ⟨hp, hp', hnodup, hcount rfl (congrArg some hnext') [98] hboth⟩

end KeyStore
