import Mathlib.Data.Set.Card
import Telemetryd.Lib.ParentMap
import Telemetryd.Lib.WhileLoop
import Telemetryd.Topology

/-!
# The walk of `_bus_chain`

`_bus_chain` goes from the bus of an endpoint to the bus above its bridge, and
on, until there is no bridge.  Memory that is read while it changes may show
buses in a cycle, so it stops at a bus with an address it has seen.

A loop that sees a new bus in each round returns, whatever is read.  Where the
reads succeed, what it returns is a path of buses, with the root bus on top if
there is one.
-/

namespace Telemetryd

open ParentMap

section

variable {B P : Type} (k : Kernel B P)

/-! ### The loop -/

/-- The variables of the loop. -/
structure ChainState (B P : Type) where
  chain : List (B × Option P)
  bus : B
  seen : Finset Nat

/-- One round of the loop of `_bus_chain`, which leaves it with what the
function returns or raises. -/
def busChainRound (s : ChainState B P) :
    ChainState B P ⊕ Read (List (B × Option P)) :=
  match (k.bus s.bus).value.toOption with
  | none => .inr (.ok s.chain.reverse)
  | some addr =>
      if addr ∈ s.seen then .inr (.ok s.chain.reverse)
      else
        let seen := insert addr s.seen
        match (k.bus s.bus).self.toOption with
        | none => .inr (.ok (s.chain ++ [(s.bus, none)]).reverse)
        | some (.error e) => .inr (.error e)
        | some (.ok none) => .inr (.ok (s.chain ++ [(s.bus, none)]).reverse)
        | some (.ok (some bridge)) => match (k.pci bridge).bus with
            | .error e => .inr (.error e)
            | .ok bus => .inl ⟨s.chain ++ [(s.bus, some bridge)], bus, seen⟩

/-- `_bus_chain` returns or raises. -/
def BusChainReturns (pdev : P) (out : Read (List (B × Option P))) : Prop :=
  match (k.pci pdev).bus with
  | .error e => out = .error e
  | .ok bus => WhileLoop.Returns (busChainRound k) ⟨[], bus, ∅⟩ out

/-! ### The loop returns -/

variable {k}

/-- **One round** that goes on reads a new address, and the bus above a
bridge. -/
theorem busChainRound_goOn {s s' : ChainState B P}
    (h : busChainRound k s = .inl s') :
    ∃ addr bridge above, (k.bus s.bus).value = .ok addr ∧ addr ∉ s.seen ∧
      (k.bus s.bus).self = .ok (.ok (some bridge)) ∧
        (k.pci bridge).bus = .ok above ∧
      s' = ⟨s.chain ++ [(s.bus, some bridge)], above, insert addr s.seen⟩ := by
  unfold busChainRound at h
  cases hvalue : (k.bus s.bus).value with
  | error e =>
      rw [hvalue] at h
      cases h
  | ok addr =>
      rw [hvalue] at h
      dsimp only [Except.toOption] at h
      by_cases hseen : addr ∈ s.seen
      · rw [if_pos hseen] at h
        cases h
      rw [if_neg hseen] at h
      cases hself : (k.bus s.bus).self with
      | error e =>
          rw [hself] at h
          cases h
      | ok pointer =>
          rw [hself] at h
          cases pointer with
          | error e => cases h
          | ok bridge =>
              cases bridge with
              | none => cases h
              | some bridge =>
                  dsimp only at h
                  cases habove : (k.pci bridge).bus with
                  | error e =>
                      rw [habove] at h
                      cases h
                  | ok above =>
                      rw [habove] at h
                      exact ⟨addr, bridge, above, rfl, hseen, rfl, habove,
                        (Sum.inl.inj h).symm⟩

/-- The number of buses that have not been visited. -/
noncomputable def unvisited (k : Kernel B P) (s : ChainState B P) : Nat :=
  {b | ∀ addr ∈ s.seen, (k.bus b).value ≠ .ok addr}.ncard

/-- Each round visits a bus. -/
theorem unvisited_lt [Finite B] {s s' : ChainState B P}
    (h : busChainRound k s = .inl s') :
    unvisited k s' < unvisited k s := by
  obtain ⟨addr, bridge, above, hvalue, hseen, -, -, rfl⟩ := busChainRound_goOn h
  refine Set.ncard_lt_ncard (Set.ssubset_iff_exists.mpr ⟨?_, s.bus, ?_, ?_⟩)
    (Set.toFinite _)
  · intro b hb other hother
    exact hb other (Finset.mem_insert_of_mem hother)
  · intro other hother hsame
    rw [hvalue] at hsame
    exact hseen (Except.ok.inj hsame ▸ hother)
  · intro hnot
    exact hnot addr (Finset.mem_insert_self _ _) hvalue

/-- **`_bus_chain` returns** or raises, with whatever reads. -/
theorem exists_busChainReturns [Finite B] (k : Kernel B P) (pdev : P) :
    ∃ out, ∀ r, BusChainReturns k pdev r ↔ r = out := by
  unfold BusChainReturns
  cases (k.pci pdev).bus with
  | error e => exact ⟨.error e, fun r => Iff.rfl⟩
  | ok bus =>
      obtain ⟨out, hout, -⟩ :=
        WhileLoop.exists_returns (I := fun _ => True) (Q := fun _ => True)
        (unvisited k) (fun _ _ _ h =>
          ⟨trivial, unvisited_lt h⟩) (fun _ _ _ _ => trivial) trivial
      exact ⟨out, hout⟩

/-! ### The walk with a bound on its rounds -/

/-- A round that leaves the loop. -/
theorem busChainFrom_of_leave {s : ChainState B P} {seen : List Nat}
    (hseen : ∀ addr, addr ∈ s.seen ↔ addr ∈ seen)
    {out : Read (List (B × Option P))}
    (h : busChainRound k s = .inr out) (rounds : Nat) :
    (busChainFrom k (rounds + 1) seen s.bus).map (fun above =>
      (s.chain ++ above).reverse) = out := by
  unfold busChainRound at h
  cases hvalue : (k.bus s.bus).value with
  | error e =>
      rw [hvalue] at h
      rw [busChainFrom, hvalue, ← Sum.inr.inj h]
      simp [Except.map, Except.toOption]
  | ok addr =>
      rw [hvalue] at h
      dsimp only [Except.toOption] at h
      by_cases hold : addr ∈ s.seen
      · rw [if_pos hold] at h
        rw [busChainFrom, hvalue, ← Sum.inr.inj h]
        simp [Except.map, Except.toOption, (hseen addr).mp hold]
      have hnew : addr ∉ seen := mt (hseen addr).mpr hold
      rw [if_neg hold] at h
      cases hself : (k.bus s.bus).self with
      | error e =>
          rw [hself] at h
          rw [busChainFrom, hvalue, hself]
          dsimp only [Except.toOption]
          rw [if_neg hnew]
          exact Sum.inr.inj h
      | ok pointer =>
          rw [hself] at h
          cases pointer with
          | error e =>
              rw [busChainFrom, hvalue, hself]
              dsimp only [Except.toOption]
              rw [if_neg hnew]
              exact Sum.inr.inj h
          | ok bridge =>
              cases bridge with
              | none =>
                  rw [busChainFrom, hvalue, hself]
                  dsimp only [Except.toOption]
                  rw [if_neg hnew]
                  exact Sum.inr.inj h
              | some bridge =>
                  dsimp only at h
                  rw [busChainFrom_bridge k hvalue hnew hself]
                  cases habove : (k.pci bridge).bus with
                  | error e =>
                      rw [habove] at h
                      exact Sum.inr.inj h
                  | ok above =>
                      rw [habove] at h
                      cases h

/-- Rounds of the loop, and the loop with a bound on its rounds. -/
theorem busChainFrom_of_run {rounds : Nat} {s : ChainState B P}
    {seen : List Nat}
    (hseen : ∀ addr, addr ∈ s.seen ↔ addr ∈ seen)
    {out : Read (List (B × Option P))}
    (h : WhileLoop.run (busChainRound k) rounds s = some out) :
    (busChainFrom k rounds seen s.bus).map (fun above =>
      (s.chain ++ above).reverse) = out := by
  induction rounds generalizing s seen with
  | zero => cases h
  | succ rounds ih =>
      cases hround : busChainRound k s with
      | inl next =>
          rw [WhileLoop.run_goOn hround] at h
          obtain ⟨addr, bridge, above, hvalue, hnew, hself, habove, rfl⟩ :=
            busChainRound_goOn hround
          have hseen' : ∀ other, other ∈ insert addr s.seen ↔
              other ∈ addr :: seen := by
            intro other
            rw [Finset.mem_insert, List.mem_cons, hseen]
          have hrest := ih hseen' h
          rw [busChainFrom_bridge k hvalue (mt (hseen addr).mpr hnew) hself,
            habove, ← hrest]
          change (busChainFrom k rounds (addr :: seen) above >>= fun chain =>
            pure ((s.bus, some bridge) :: chain)).map _ = _
          cases busChainFrom k rounds (addr :: seen) above with
          | error e => rfl
          | ok chain => simp [Except.map, bind, Except.bind, pure, Except.pure]
      | inr result =>
          rw [WhileLoop.run_leave hround] at h
          obtain rfl := Option.some.inj h
          exact busChainFrom_of_leave hseen hround rounds

/-- **The bound is large enough**: a round for each bus, and the last one. -/
theorem busChainReturns_iff [Fintype B] (pdev : P)
    (out : Read (List (B × Option P))) :
    BusChainReturns k pdev out ↔ busChain k pdev = out := by
  obtain ⟨result, hresult⟩ := exists_busChainReturns k pdev
  rw [hresult]
  have hchain : busChain k pdev = result := by
    have hreturns := (hresult result).mpr rfl
    unfold BusChainReturns at hreturns
    unfold busChain
    cases hbus : (k.pci pdev).bus with
    | error e =>
        rw [hbus] at hreturns
        exact hreturns.symm
    | ok bus =>
        rw [hbus] at hreturns
        have hleft : unvisited k ⟨[], bus, ∅⟩ < Fintype.card B + 1 := by
          have hle := Set.ncard_le_card {b | ∀ addr ∈ (∅ : Finset Nat),
            (k.bus b).value ≠ .ok addr}
          rw [Nat.card_eq_fintype_card] at hle
          exact Nat.lt_succ_of_le hle
        obtain ⟨found, hfound⟩ :=
          WhileLoop.exists_run (I := fun _ => True) (unvisited k)
          (fun _ _ _ h => ⟨trivial, unvisited_lt h⟩) trivial hleft
        have hsame :=
          hreturns.unique (WhileLoop.returns_iff_run.mpr ⟨_, hfound⟩)
        have hloop :
            (busChainFrom k (Fintype.card B + 1) [] bus).map (fun above =>
            ([] ++ above).reverse)
            = found := busChainFrom_of_run (by simp) hfound
        rw [hsame, ← hloop]
        cases hfrom : busChainFrom k (Fintype.card B + 1) [] bus with
        | error e => simp [bind, Except.bind, hfrom, Except.map]
        | ok chain =>
            simp [bind, Except.bind, hfrom, Except.map, pure, Except.pure]
  rw [hchain]
  exact eq_comm

end

/-! ### Graphs of buses -/

/-- Buses and bridges, as far as the walk sees them: the address of each bus,
the bridge that it is behind, and the bus that a bridge sits on.  There may be
cycles. -/
structure BusGraph (B P : Type) where
  address : B ↪ Nat
  creator : B → Option P
  place : P → B

namespace BusGraph

variable {B P : Type} (g : BusGraph B P)

/-- The bus above. -/
def above (bus : B) : Option B := (g.creator bus).map g.place

/-- The reads succeed, and show the graph. -/
structure ReadBy (k : Kernel B P) : Prop where
  value : ∀ bus, (k.bus bus).value = .ok (g.address bus)
  self : ∀ bus, (k.bus bus).self = .ok (.ok (g.creator bus))
  bus : ∀ pdev, (k.pci pdev).bus = .ok (g.place pdev)

/-- The entry of a bus in the chain. -/
def entry (bus : B) : B × Option P := (bus, g.creator bus)

/-- The loop has climbed from a bus, and never came to a bus twice. -/
structure Climbing (start : B) (s : ChainState B P) (passed : List B) :
    Prop where
  climbs : Climbs g.above start passed s.bus
  nodup : passed.Nodup
  chain : s.chain = passed.map g.entry
  seen : ∀ bus, g.address bus ∈ s.seen ↔ bus ∈ passed

variable {g} {k : Kernel B P} {start : B} {s : ChainState B P} {passed : List B}

theorem climbing_start (start : B) : g.Climbing start ⟨[], start, ∅⟩ [] where
  climbs := .here
  nodup := List.nodup_nil
  chain := rfl
  seen _ := iff_of_false (Finset.notMem_empty _) List.not_mem_nil

theorem above_eq_none_iff {bus : B} :
    g.above bus = none ↔ g.creator bus = none :=
  Option.map_eq_none_iff

/-- A round with reads that succeed. -/
theorem ReadBy.round (hk : g.ReadBy k) (s : ChainState B P) :
    busChainRound k s =
    if g.address s.bus ∈ s.seen then .inr (.ok s.chain.reverse)
    else match g.creator s.bus with
      | none => .inr (.ok (s.chain ++ [g.entry s.bus]).reverse)
      | some bridge => .inl
          ⟨s.chain ++ [g.entry s.bus], g.place bridge,
            insert (g.address s.bus) s.seen⟩ := by
  unfold busChainRound entry
  rw [hk.value, hk.self]
  dsimp only [Except.toOption]
  split
  · rfl
  · cases hcreator : g.creator s.bus with
    | none => rfl
    | some bridge =>
        dsimp only
        rw [hk.bus]

/-- **A round that goes on** climbs to the next bus. -/
theorem Climbing.goOn (hk : g.ReadBy k) (h : g.Climbing start s passed)
    {s' : ChainState B P}
    (hround : busChainRound k s = .inl s') :
    g.Climbing start s' (passed ++ [s.bus]) := by
  rw [hk.round] at hround
  split at hround
  · cases hround
  case isFalse hnew =>
    cases hcreator : g.creator s.bus with
    | none =>
        rw [hcreator] at hround
        cases hround
    | some bridge =>
        rw [hcreator] at hround
        obtain rfl := Sum.inl.inj hround
        have hfresh : s.bus ∉ passed := mt (h.seen s.bus).mpr hnew
        refine ⟨h.climbs.step ?_, ?_, ?_, fun bus => ?_⟩
        · rw [above, hcreator, Option.map_some]
        · exact List.nodup_append'.mpr ⟨h.nodup, List.nodup_singleton _,
            List.disjoint_singleton.mpr hfresh⟩
        · rw [h.chain, List.map_append, List.map_singleton]
        · rw [Finset.mem_insert, h.seen, List.mem_append, List.mem_singleton,
            g.address.injective.eq_iff, or_comm]

/-- **A round that leaves the loop** returns the entries of a walk, from the top
down. -/
theorem Climbing.leave (hk : g.ReadBy k) (h : g.Climbing start s passed)
    {out : Read (List (B × Option P))} (hround : busChainRound k s = .inr out) :
    ∃ walk, Walk g.above start walk ∧ walk.Nodup ∧
      out = .ok (walk.map g.entry).reverse := by
  rw [hk.round] at hround
  split at hround
  case isTrue hseen =>
    refine ⟨passed, .repeats h.climbs ((h.seen s.bus).mp hseen), h.nodup, ?_⟩
    rw [← Sum.inr.inj hround, h.chain]
  case isFalse hnew =>
    cases hcreator : g.creator s.bus with
    | some bridge =>
        rw [hcreator] at hround
        cases hround
    | none =>
        rw [hcreator] at hround
        have hfresh : s.bus ∉ passed := mt (h.seen s.bus).mpr hnew
        refine ⟨passed ++ [s.bus], .root h.climbs ?_, ?_, ?_⟩
        · rw [above, hcreator, Option.map_none]
        · exact List.nodup_append'.mpr ⟨h.nodup, List.nodup_singleton _,
            List.disjoint_singleton.mpr hfresh⟩
        · rw [← Sum.inr.inj hround, h.chain, List.map_append,
            List.map_singleton]

/-- **The walk.**  With reads that succeed, `_bus_chain` returns the entries of
a walk up from the bus of the endpoint. -/
theorem ReadBy.exists_walk [Finite B] (hk : g.ReadBy k) (pdev : P) :
    ∃ walk, Walk g.above (g.place pdev) walk ∧ walk.Nodup ∧
      ∀ out, BusChainReturns k pdev out ↔
        out = .ok (walk.map g.entry).reverse := by
  unfold BusChainReturns
  rw [hk.bus]
  obtain ⟨result, hresult, walk, hwalk, hnodup, rfl⟩ := WhileLoop.exists_returns
    (I := fun s => ∃ passed, g.Climbing (g.place pdev) s passed) (unvisited k)
    (fun _ _ hs hround =>
      ⟨hs.imp' _ fun _ h => h.goOn hk hround, unvisited_lt hround⟩)
    (fun _ _ hs hround => hs.elim fun _ h =>
      h.leave hk hround) ⟨[], climbing_start _⟩
  exact ⟨walk, hwalk, hnodup, hresult⟩

/-- **The chain of buses.**  On a finite graph, with cycles or without, and with
reads that succeed, `_bus_chain` returns.  No bus is in what it returns twice,
the last one is that of the endpoint, and each bridge sits on the bus before;
there is an entry without a bridge if the way up from the endpoint comes to a
root bus, and it is the first and the only one. -/
theorem bus_chain_is_path [Finite B] (g : BusGraph B P) (k : Kernel B P)
    (hk : g.ReadBy k)
    (pdev : P) :
    ∃ chain, (∀ out, BusChainReturns k pdev out ↔ out = .ok chain) ∧
      (chain.map Prod.fst).Nodup ∧
      chain.getLast?.map Prod.fst = some (g.place pdev) ∧
      chain.IsChain (fun upper lower => ∃ bridge, lower.2 = some bridge ∧
        g.place bridge = upper.1) ∧
      (∀ entry ∈ chain, entry.2 = g.creator entry.1) ∧
      ((∃ entry ∈ chain, entry.2 = none) ↔
        ∃ root, Relation.ReflTransGen (Above g.above) (g.place pdev) root ∧
          g.creator root = none) ∧
      ∀ entry ∈ chain, entry.2 = none → ∃ rest, chain = entry :: rest ∧
        ∀ e ∈ rest, e.2 ≠ none := by
  obtain ⟨walk, hwalk, hnodup, hreturns⟩ := hk.exists_walk pdev
  have hmem : ∀ entry, entry ∈ (walk.map g.entry).reverse ↔
      ∃ bus ∈ walk, g.entry bus = entry := by
    intro entry
    rw [List.mem_reverse, List.mem_map]
  refine ⟨(walk.map g.entry).reverse, hreturns, ?_, ?_, ?_, ?_, ?_, ?_⟩
  · have hbuses : (walk.map g.entry).map Prod.fst = walk := by
      rw [List.map_map]
      exact List.map_id walk
    rw [List.map_reverse, List.nodup_reverse, hbuses]
    exact hnodup
  · rw [List.getLast?_reverse, List.head?_map, hwalk.head]
    rfl
  · rw [List.isChain_reverse, List.isChain_map]
    refine hwalk.isChain.imp ?_
    intro lower upper habove
    exact Option.map_eq_some_iff.mp habove
  · intro entry hentry
    obtain ⟨bus, -, rfl⟩ := (hmem entry).mp hentry
    rfl
  · have hroots : (∃ entry ∈ (walk.map g.entry).reverse, entry.2 = none) ↔
        ∃ bus ∈ walk, g.above bus = none := by
      simp only [hmem, exists_exists_and_eq_and, above_eq_none_iff]
      rfl
    rw [hroots, hwalk.exists_root_iff]
    simp only [above_eq_none_iff]
  · obtain ⟨passed, last, rfl, hpassed⟩ := hwalk.exists_concat
    have hrest : ∀ e ∈ (passed.map g.entry).reverse, e.2 ≠ none := by
      intro e he
      obtain ⟨bus, hbus, rfl⟩ := List.mem_map.mp (List.mem_reverse.mp he)
      exact mt above_eq_none_iff.mpr (hpassed bus hbus)
    have hsplit : ((passed ++ [last]).map g.entry).reverse
        = g.entry last :: (passed.map g.entry).reverse := by
      rw [List.map_append, List.reverse_append]
      rfl
    intro entry hentry hnone
    rw [hsplit] at hentry ⊢
    rcases List.mem_cons.mp hentry with rfl | hin
    · exact ⟨_, rfl, hrest⟩
    · exact absurd hnone (hrest entry hin)

/-- A kernel with the graph in its memory. -/
def kernel (g : BusGraph B P) : Kernel B P where
  bus b :=
    { value := .ok (g.address b), self := .ok (.ok (g.creator b)),
      domainNr := .ok 0
      sysdataDomain := .ok 0, number := .ok 0, name :=
        .ok (.ok []), busnStart := .ok 0
      busnEnd := .ok 0 }
  pci p :=
    { bus := .ok (g.place p), devfn := .ok 0, value := .ok 0,
      classCode := .ok 0, pcieCap := .ok 0
      pcieFlagsReg := .ok 0, vendor := .ok 0, device := .ok 0, revision := .ok 0
      subsystemVendor := .ok 0, subsystemDevice := .ok 0, irq :=
        .ok 0, msiEnabled := .ok false
      msixEnabled := .ok false, currentState := .ok 0 }
  getDevAndDisk _ := .error []

theorem readBy_kernel (g : BusGraph B P) : g.ReadBy g.kernel where
  value _ := rfl
  self _ := rfl
  bus _ := rfl

/-- Two buses, each behind a bridge on the other one. -/
def cycle : BusGraph Bool Bool where
  address := ⟨fun b => if b then 0x2000 else 0x1000, by decide⟩
  creator b := some b
  place p := !p

/-- On a cycle the walk stops where it began. -/
theorem bus_chain_is_path_cycle : ∃ chain,
    BusChainReturns cycle.kernel true (.ok chain) ∧ (chain.map Prod.fst).Nodup ∧
      chain = [(true, some true), (false, some false)] := by
  obtain ⟨chain, hreturns, hnodup, -⟩ :=
    bus_chain_is_path cycle cycle.kernel (readBy_kernel cycle) true
  have hchain :
      busChain cycle.kernel true =
      .ok [(true, some true), (false, some false)] := by
    rfl
  have hsame := (hreturns _).mp ((busChainReturns_iff _ _).mpr hchain)
  exact ⟨chain, (hreturns _).mpr rfl, hnodup, (Except.ok.inj hsame).symm⟩

end BusGraph

end Telemetryd
