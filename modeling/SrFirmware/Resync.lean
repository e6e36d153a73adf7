import SrFirmware.CommandLoop

/-!
# A stall resynchronises the receiver

A call of `get_block` ends with the first timeout that it reads. So a call always ends behind
a timeout, whatever garbage stands in front of it, and what comes later is received as a
stream of its own.
-/

namespace SrFirmware

set_option autoImplicit false

/-! ### Scanning up to a timeout -/

theorem leadingBytes_timeout_append (before after : List Input) :
    leadingBytes (before ++ .timeout :: after) = leadingBytes before := by
  induction before with
  | nil => rfl
  | cons e before ih =>
    cases e with
    | timeout => rfl
    | byte b => exact congrArg (b :: ·) ih

theorem length_leadingBytes_le (input : List Input) :
    (leadingBytes input).length ≤ input.length := by
  induction input with
  | nil => exact Nat.le_refl _
  | cons e input ih =>
    cases e with
    | timeout => exact Nat.zero_le _
    | byte b => exact Nat.succ_le_succ ih

/-- A call looks no further than one event behind the leading bytes. -/
theorem scan_eq_drop (input : List Input) :
    ∃ item n, 0 < n ∧ n ≤ (leadingBytes input).length + 1 ∧
      ∀ other, leadingBytes other = leadingBytes input → scan other = (item, other.drop n) := by
  cases hlead : leadingBytes input with
  | nil => exact ⟨.quiet, 1, by simp, by simp, fun other h => by simp [scan, h]⟩
  | cons m run =>
    by_cases hm : m = startMarker
    · rcases run with - | ⟨l1, - | ⟨l2, rest⟩⟩
      · exact ⟨.truncated, 2, by simp, by simp, fun other h => by simp [scan, h, hm]⟩
      · exact ⟨.truncated, 3, by simp, by simp, fun other h => by simp [scan, h, hm]⟩
      · cases hd : delimit l1 l2 rest with
        | none =>
          exact ⟨.truncated, rest.length + 4, by simp, by simp, fun other h => by
            simp [scan, h, hm, hd]⟩
        | some d =>
          have hlen : d.bytes.length ≤ rest.length + 3 := by
            obtain ⟨-, -, hconsumed⟩ := delimit_some hd
            have hle := hconsumed.length_le
            rw [List.length_append] at hle
            simp only [List.length_cons, List.length_nil] at hle
            rw [Delimited.length_bytes]
            omega
          refine ⟨.frame d, d.bytes.length, ?_, ?_, fun other h => by simp [scan, h, hm, hd]⟩
          · rw [Delimited.length_bytes]
            omega
          · simp only [List.length_cons]
            omega
    · exact ⟨.quiet, 1, by simp, by simp, fun other h => by simp [scan, h, hm]⟩

/-- What a call takes in front of a timeout, and whether it takes the timeout, does not depend
on what comes behind it. -/
theorem scan_timeout (before : List Input) :
    ∃ item, (∀ after, scan (before ++ .timeout :: after) = (item, after)) ∨
      ∃ rest : List Input, rest.length < before.length ∧
        ∀ after, scan (before ++ .timeout :: after) = (item, rest ++ .timeout :: after) := by
  obtain ⟨item, n, hpos, hn, hscan⟩ := scan_eq_drop before
  have hlen := length_leadingBytes_le before
  refine ⟨item, ?_⟩
  by_cases hall : n = before.length + 1
  · left
    intro after
    rw [hscan _ (leadingBytes_timeout_append before after), hall, List.drop_append]
    simp
  · right
    refine ⟨before.drop n, by rw [List.length_drop]; omega, ?_⟩
    intro after
    rw [hscan _ (leadingBytes_timeout_append before after),
      List.drop_append_of_le_length (by omega)]

/-- After some calls exactly what comes behind the timeout is left. -/
theorem scanMany_timeout (before : List Input) :
    ∃ n, n ≤ before.length + 1 ∧ ∃ items : List Item, items.length = n ∧
      ∀ m after, scanMany (n + m) (before ++ .timeout :: after) = items ++ scanMany m after := by
  induction hlen : before.length using Nat.strong_induction_on generalizing before with
  | _ len ih =>
    obtain ⟨item, hall | ⟨rest, hshort, hrest⟩⟩ := scan_timeout before
    · refine ⟨1, by omega, [item], rfl, ?_⟩
      intro m after
      rw [Nat.add_comm, scanMany, hall after]
      rfl
    · obtain ⟨n, hn, items, hitems, hscan⟩ := ih rest.length (hlen ▸ hshort) rest rfl
      refine ⟨n + 1, by omega, item :: items, by rw [List.length_cons, hitems], ?_⟩
      intro m after
      rw [Nat.add_right_comm, scanMany, hrest after, hscan]
      rfl

/-! ### The responses -/

section
variable {logLevel : Int} (build : Build)

/-- What is owed to a list of items: each is a function of its own item and of the state that the
accepted ones before it have left. -/
def owed : List (Item × Platform logLevel) → SerialComm → List Response
  | [], _ => []
  | (item, p) :: rest, s =>
    let r := serve build p s item []
    r.response :: owed rest (if item.request.isSome then r.comm else s)

/-- What the accepted ones of a list of items leave. -/
def accepted : List (Item × Platform logLevel) → SerialComm → SerialComm
  | [], s => s
  | (item, p) :: rest, s =>
    accepted rest (if item.request.isSome then (serve build p s item []).comm else s)

/-- The state that some calls leave. -/
def afterwards (s : SerialComm) (rs : List CallResult) : SerialComm :=
  rs.foldl (fun _ r => r.comm) s

variable {build} {s s' : SerialComm}

theorem owed_append (a b : List (Item × Platform logLevel)) (s : SerialComm) :
    owed build (a ++ b) s = owed build a s ++ owed build b (accepted build a s) := by
  induction a generalizing s with
  | nil => rfl
  | cons c a ih =>
    obtain ⟨item, p⟩ := c
    exact congrArg _ (ih _)

theorem getBlocks_owed (h : Stale build s s') (ps : List (Platform logLevel))
    (input : List Input) :
    let rs := getBlocks build ps s' input
    let items := (scanMany ps.length input).zip ps
    rs.map CallResult.response = owed build items s ∧
      Stale build (accepted build items s) (afterwards s' rs) := by
  induction ps generalizing s s' input with
  | nil => exact ⟨rfl, h⟩
  | cons p ps ih =>
    obtain ⟨v, hv⟩ := getBlock_serve build p s' input
    obtain ⟨hresponse, hstale⟩ := h.serve_response p (scan input).1 (scan input).2
    obtain ⟨ihresponse, ihstale⟩ := ih (hstale.withBuffer v) (scan input).2
    simp only [getBlocks, hv, List.length_cons, scanMany, List.zip_cons_cons, List.map_cons,
      afterwards, List.foldl_cons, owed, accepted]
    simp only [CallResult.withBuffer, serve_input]
    refine ⟨?_, ihstale⟩
    rw [ihresponse, ← hresponse]
    rfl

/-- A stall cuts the stream: after at most one call for each event in front of it the receiver
stands behind it, the calls up to there answer as if nothing came later, and the later ones
answer what comes behind it as a stream of its own. -/
theorem stall_resynchronises (before : List Input) :
    ∃ n, n ≤ before.length + 1 ∧
      ∀ (build : Build) (ps qs : List (Platform logLevel)) (s : SerialComm) (after : List Input),
        ps.length = n →
          let rs := getBlocks build ps s (before ++ [.timeout])
          (getBlocks build (ps ++ qs) s (before ++ .timeout :: after)).map CallResult.response =
            rs.map CallResult.response ++
              (getBlocks build qs (afterwards s rs) after).map CallResult.response := by
  obtain ⟨n, hn, items, hitems, hscan⟩ := scanMany_timeout before
  refine ⟨n, hn, ?_⟩
  intro build ps qs s after hps rs
  have hfirst : scanMany ps.length (before ++ [.timeout]) = items := by
    have hzero := hscan 0 []
    rw [Nat.add_zero, scanMany, List.append_nil] at hzero
    rw [hps, hzero]
  have hall : (scanMany (ps ++ qs).length (before ++ .timeout :: after)).zip (ps ++ qs) =
      items.zip ps ++ (scanMany qs.length after).zip qs := by
    rw [List.length_append, hps, hscan, List.zip_append (hitems.trans hps.symm)]
  obtain ⟨hresponses, hstale⟩ := getBlocks_owed (Stale.refl build s) ps (before ++ [.timeout])
  obtain ⟨hlater, -⟩ := getBlocks_owed hstale qs after
  obtain ⟨htogether, -⟩ :=
    getBlocks_owed (Stale.refl build s) (ps ++ qs) (before ++ .timeout :: after)
  rw [hfirst] at hresponses hlater
  rw [hall, owed_append] at htogether
  rw [htogether, hresponses, hlater]

end

end SrFirmware
