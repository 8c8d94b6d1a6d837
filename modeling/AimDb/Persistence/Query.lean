import AimDb.Persistence.Sqlite
import AimDb.Ranking.First

/-!
# What a query returns

For each record of the match set a query returns its newest rows in the time
window, unless the scan range leaves the record out.
-/

namespace AimDb.Persistence

open Session.TopicMatch Ranking

def QueryParams.inWindow (params : QueryParams) (row : Row) : Bool :=
  (params.startTime.all fun start => decide (start ≤ row.storedAt)) &&
    params.endTime.all fun stop => decide (row.storedAt ≤ stop)

def Db.windowOf (db : Db) (params : QueryParams) (name : String) : List Row :=
  db.rows.filter fun row => row.recordName == name && params.inWindow row

def takeLimit {α : Type} (limit : Option Nat) (entries : List α) : List α :=
  match limit with
  | none => entries
  | some limit => entries.take limit

/-- The newest rows of a record in the window, by `stored_at` and then insertion
order. -/
def Db.newestOf (db : Db) (params : QueryParams) (name : String) : List Row :=
  takeLimit params.limitPerRecord (ranked Row.newer (db.windowOf params name))

def Db.expected {V : Type} (decode : String → V) (db : Db) (pattern : String)
    (params : QueryParams) (name : String) : List (StoredValue V) :=
  if topicMatches pattern name then (db.newestOf params name).map (Row.toStored decode) else []

/-- The values are, record by record, those a query should return. -/
def Db.ExactFor {V : Type} (decode : String → V) (db : Db) (pattern : String)
    (params : QueryParams) (values : List (StoredValue V)) : Prop :=
  ∀ name, (values.filter fun value => value.recordName == name).Perm
    (db.expected decode pattern params name)

/-- No row the query asks for is of a record that the scan range leaves out. -/
def Db.Reached (db : Db) (pattern : String) (params : QueryParams) : Prop :=
  params.limitPerRecord = some 0 ∨
    ∀ row ∈ db.rows, params.inWindow row = true → overlooks pattern row.recordName = false

structure QueryParams.Fits (params : QueryParams) : Prop where
  limit : ∀ n ∈ params.limitPerRecord, n ≤ i64Max
  start : ∀ n ∈ params.startTime, n ≤ i64Max
  stop : ∀ n ∈ params.endTime, n ≤ i64Max

theorem newer_order : Order Row.newer where
  asymm a b := by
    simp only [Row.newer, Bool.or_eq_true, Bool.and_eq_true, decide_eq_true_eq, beq_iff_eq,
      Bool.or_eq_false_iff, Bool.and_eq_false_iff, decide_eq_false_iff_not, beq_eq_false_iff_ne]
    omega
  cotrans a b c := by
    simp only [Row.newer, Bool.or_eq_false_iff, Bool.and_eq_false_iff, decide_eq_false_iff_not,
      beq_eq_false_iff_ne]
    omega

theorem Db.Numbered.apart {db : Db} (numbered : db.Numbered) :
    db.rows.Pairwise (Apart Row.newer) := by
  apply numbered.rising.imp
  intro a b rises
  simp only [Apart, Row.newer, Bool.or_eq_true, Bool.and_eq_true, decide_eq_true_eq, beq_iff_eq]
  omega

theorem filter_rowNumber {rows : List Row} {name : String} (apart : rows.Pairwise (Apart Row.newer))
    (own : ∀ row ∈ rows, row.recordName = name) (limit : Option Nat) :
    (rows.filter fun row => limit.all fun limit => decide (rowNumber rows row ≤ limit)).Perm
      (takeLimit limit (ranked Row.newer rows)) := by
  cases limit with
  | none => simpa [takeLimit] using (ranked_perm rows).symm
  | some limit =>
      have rank : ∀ row ∈ rows, (decide (rowNumber rows row ≤ limit)) =
          decide (rows.countP (fun other => other.newer row) < limit) := by
        intro row isRow
        have same : rows.countP (fun other =>
          other.recordName == row.recordName && other.newer row) =
            rows.countP fun other => other.newer row := by
          apply List.countP_congr
          intro other isOther
          simp [own row isRow, own other isOther]
        rw [rowNumber, same]
        rfl
      simp only [Option.all_some, takeLimit]
      rw [List.filter_congr rank]
      exact newer_order.filter_rank_perm apart limit

theorem passes_eq (pattern : String) (params : QueryParams) (row : Row) :
    row.passes (scanRange pattern).1 (scanRange pattern).2 params.startTime params.endTime =
      (scanned pattern row.recordName && params.inWindow row) := by
  rw [Row.passes, scanned, QueryParams.inWindow, Bool.and_assoc]

theorem rowNumber_filter (rows : List Row) (row : Row) :
    rowNumber (rows.filter fun other => other.recordName == row.recordName) row =
      rowNumber rows row := by
  rw [rowNumber, rowNumber, List.countP_filter]
  congr 2
  funext other
  cases other.recordName == row.recordName <;> simp

theorem filter_passes (db : Db) (pattern : String) (params : QueryParams) (name : String) :
    (db.rows.filter (Row.passes (scanRange pattern).1 (scanRange pattern).2
      params.startTime params.endTime)).filter (fun row => row.recordName == name) =
      if scanned pattern name then db.windowOf params name else [] := by
  rw [List.filter_filter]
  cases reached : scanned pattern name with
  | true =>
      rw [if_pos rfl, Db.windowOf]
      apply List.filter_congr
      intro row _
      rw [passes_eq]
      by_cases same : row.recordName = name
      · simp [same, reached]
      · rw [beq_false_of_ne same, Bool.false_and, Bool.false_and]
  | false =>
      rw [if_neg Bool.false_ne_true, List.filter_eq_nil_iff]
      intro row _
      rw [passes_eq]
      by_cases same : row.recordName = name
      · simp [same, reached]
      · simp [same]

theorem filter_numbered (rows : List Row) (limit : Option Nat) (name : String) :
    (rows.filter fun row => limit.all fun limit => decide (rowNumber rows row ≤ limit)).filter
      (fun row => row.recordName == name) =
      (rows.filter fun row => row.recordName == name).filter fun row => limit.all fun limit =>
        decide (rowNumber (rows.filter fun other => other.recordName == name) row ≤ limit) := by
  rw [List.filter_filter, List.filter_filter]
  apply List.filter_congr
  intro row _
  by_cases same : row.recordName = name
  · subst same
    rw [rowNumber_filter, Bool.and_comm]
  · rw [beq_false_of_ne same, Bool.false_and, Bool.and_false]

theorem select_filter {db : Db} (numbered : db.Numbered) (pattern : String) (params : QueryParams)
    (name : String) :
    ((select db.rows (scanRange pattern).1 params.startTime params.endTime params.limitPerRecord
      (scanRange pattern).2).filter fun row => row.recordName == name).Perm
      (if scanned pattern name then db.newestOf params name else []) := by
  rw [select]
  simp only [filter_numbered, filter_passes]
  split
  · apply filter_rowNumber (numbered.apart.filter _)
    intro row inWindow
    have named := (List.mem_filter.mp inWindow).2
    rw [Bool.and_eq_true, beq_iff_eq] at named
    exact named.1
  · exact .nil

theorem optionalI64_ok {n : Option Nat} (fits : ∀ m ∈ n, m ≤ i64Max) (overflow : String) :
    optionalI64 n overflow = .ok n := by
  cases n with
  | none => rfl
  | some n => rw [optionalI64, toI64, if_pos (fits n rfl)]; rfl

theorem querySync_ok {V : Type} (sqlite : Sqlite) (decode : String → V) (db : Db)
    (pattern : String) {params : QueryParams} (fits : params.Fits) :
    querySync sqlite decode db pattern params =
      .ok (((sqlite.orderBy (select db.rows (scanRange pattern).1 params.startTime params.endTime
        params.limitPerRecord (scanRange pattern).2)).map (Row.toStored decode)).filter
          fun value => topicMatches pattern value.recordName) := by
  rw [querySync, optionalI64_ok fits.limit, optionalI64_ok fits.start, optionalI64_ok fits.stop]
  rfl

theorem filter_toStored {V : Type} (decode : String → V) (rows : List Row)
    (pattern name : String) :
    ((rows.map (Row.toStored decode)).filter fun value =>
      topicMatches pattern value.recordName).filter
      (fun value => value.recordName == name) =
      if topicMatches pattern name then
        (rows.filter fun row => row.recordName == name).map (Row.toStored decode)
      else [] := by
  rw [List.filter_filter, List.filter_map]
  cases matched : topicMatches pattern name with
  | true =>
      rw [if_pos rfl]
      congr 1
      apply List.filter_congr
      intro row _
      by_cases same : row.recordName = name
      · simp [Row.toStored, same, matched]
      · simp [Row.toStored, same]
  | false =>
      rw [if_neg Bool.false_ne_true, List.map_eq_nil_iff, List.filter_eq_nil_iff]
      intro row _
      by_cases same : row.recordName = name
      · simp [Row.toStored, same, matched]
      · simp [Row.toStored, same]

theorem answer_filter {V : Type} (sqlite : Sqlite) (documented : sqlite.Documented)
    (decode : String → V) {db : Db} (numbered : db.Numbered) (pattern : String)
    (params : QueryParams) (name : String) :
    ((((sqlite.orderBy (select db.rows (scanRange pattern).1 params.startTime params.endTime
      params.limitPerRecord (scanRange pattern).2)).map (Row.toStored decode)).filter
        fun value => topicMatches pattern value.recordName).filter
          fun value => value.recordName == name).Perm
      (if topicMatches pattern name && scanned pattern name then
        (db.newestOf params name).map (Row.toStored decode) else []) := by
  rw [filter_toStored]
  cases topicMatches pattern name with
  | false => exact .nil
  | true =>
      have selected := ((documented _).filter fun row => row.recordName == name).trans
        (select_filter numbered pattern params name)
      rw [Bool.true_and, if_pos rfl]
      refine (selected.map (Row.toStored decode)).trans ?_
      cases scanned pattern name <;> rfl

theorem newestOf_eq_nil_iff {db : Db} {params : QueryParams} {name : String} :
    db.newestOf params name = [] ↔
      params.limitPerRecord = some 0 ∨ db.windowOf params name = [] := by
  have empty : ranked Row.newer (db.windowOf params name) = [] ↔
      db.windowOf params name = [] := by
    rw [← List.length_eq_zero_iff, (ranked_perm _).length_eq, List.length_eq_zero_iff]
  rw [Db.newestOf, takeLimit.eq_def]
  cases params.limitPerRecord with
  | none => simp [empty]
  | some limit => simp [empty]

theorem reached_iff {db : Db} {pattern : String} {params : QueryParams} :
    db.Reached pattern params ↔
      ∀ name, overlooks pattern name = true → db.newestOf params name = [] := by
  constructor
  · intro reached name left
    rw [newestOf_eq_nil_iff]
    refine reached.imp_right fun kept => ?_
    rw [Db.windowOf, List.filter_eq_nil_iff]
    intro row isRow wanted
    rw [Bool.and_eq_true, beq_iff_eq] at wanted
    have notLeft := kept row isRow wanted.2
    rw [wanted.1, left] at notLeft
    cases notLeft
  · intro none
    by_cases zero : params.limitPerRecord = some 0
    · exact .inl zero
    refine .inr fun row isRow inWindow => ?_
    rw [Bool.eq_false_iff]
    intro left
    have window := (newestOf_eq_nil_iff.mp (none _ left)).resolve_left zero
    rw [Db.windowOf, List.filter_eq_nil_iff] at window
    exact window row isRow (by simp [inWindow])

theorem exactFor_iff {V : Type} (sqlite : Sqlite) (documented : sqlite.Documented)
    (decode : String → V) {db : Db} (numbered : db.Numbered) (pattern : String)
    (params : QueryParams) :
    db.ExactFor decode pattern params
      (((sqlite.orderBy (select db.rows (scanRange pattern).1 params.startTime params.endTime
        params.limitPerRecord (scanRange pattern).2)).map (Row.toStored decode)).filter
          fun value => topicMatches pattern value.recordName) ↔ db.Reached pattern params := by
  have answered := answer_filter sqlite documented decode numbered pattern params
  rw [reached_iff]
  constructor
  · intro exact name left
    have matched := topicMatches_of_overlooks left
    have missed : scanned pattern name = false := by
      rw [Bool.eq_false_iff, ne_eq, scanned_iff matched, left]
      decide
    have none := (answered name).symm.trans (exact name)
    rw [Db.expected, matched, missed] at none
    simpa using none
  · intro none name
    refine (answered name).trans (.of_eq ?_)
    rw [Db.expected]
    cases matched : topicMatches pattern name with
    | false => rfl
    | true =>
        cases left : overlooks pattern name with
        | false => rw [(scanned_iff matched).mpr left]; rfl
        | true =>
            rw [none name left]
            cases scanned pattern name <;> rfl

theorem scanned_iff_bounds {pattern name : String} :
    scanned pattern name = true ↔
      ¬ BytesBelow (asBytes name) (asBytes (literalPrefix pattern)) ∧
        ∀ bound ∈ prefixUpperBound (literalPrefix pattern),
        BytesBelow (asBytes name) bound := by
  rw [scanned, scanRange]
  split
  · rename_i empty
    rw [String.isEmpty_iff.mp empty]
    refine iff_of_true rfl ⟨List.not_lex_nil, fun bound found => ?_⟩
    cases found
  · simp [Option.all_eq_true]

/-- A query that fits is exact unless a row it asks for is of a name that the scan range
overlooks, and that is the one name of the match set outside the range. -/
theorem querySync_exact_iff {V : Type} (sqlite : Sqlite) (documented : sqlite.Documented)
    (decode : String → V) (history : List DbCommand) (pattern : String) (params : QueryParams)
    (fits : params.Fits) :
    (∃ values, querySync sqlite decode (Db.after history) pattern params = .ok values ∧
      ((Db.after history).ExactFor decode pattern params values ↔
        (Db.after history).Reached pattern params)) ∧
    ∀ key, topicMatches pattern key = true →
      ((¬ BytesBelow (asBytes key) (asBytes (literalPrefix pattern)) ∧
        ∀ bound ∈ prefixUpperBound (literalPrefix pattern), BytesBelow (asBytes key) bound) ↔
      overlooks pattern key = false) := by
  refine ⟨⟨_, querySync_ok sqlite decode (Db.after history) pattern fits,
    exactFor_iff sqlite documented decode (Db.numbered_after history) pattern params⟩, ?_⟩
  intro key matched
  rw [← scanned_iff_bounds, scanned_iff matched]

/-- Rows of one name and time stay as they come. -/
def stableSqlite : Sqlite where
  orderBy rows := rows.mergeSort fun a b =>
    decide (BytesBelow (asBytes a.recordName) (asBytes b.recordName)) ||
      (a.recordName == b.recordName && decide (b.storedAt ≤ a.storedAt))

theorem querySync_exact_iff_sensors :
    (∃ values, querySync stableSqlite id
        (Db.after [.store "sensors.temp" "21" 1000, .store "sensors.temp" "22" 2000])
        "sensors.#" { limitPerRecord := some 1 } = .ok values ∧
      ((Db.after [.store "sensors.temp" "21" 1000, .store "sensors.temp" "22" 2000]).ExactFor id
          "sensors.#" { limitPerRecord := some 1 } values ↔
        (Db.after [.store "sensors.temp" "21" 1000, .store "sensors.temp" "22" 2000]).Reached
          "sensors.#" { limitPerRecord := some 1 })) ∧
    ∀ key, topicMatches "sensors.#" key = true →
      ((¬ BytesBelow (asBytes key) (asBytes (literalPrefix "sensors.#")) ∧
        ∀ bound ∈ prefixUpperBound (literalPrefix "sensors.#"),
        BytesBelow (asBytes key) bound) ↔
      overlooks "sensors.#" key = false) :=
  querySync_exact_iff stableSqlite (fun _ => List.mergeSort_perm _ _) id _ _ _
    ⟨by decide, by decide, by decide⟩

/-- `sensors.#` matches `sensors`, whose rows the query does not read. -/
theorem query_overlooks_sensors :
    querySync stableSqlite id (Db.after [.store "sensors" "21" 1000]) "sensors.#" {} = .ok [] ∧
    ¬ (Db.after [.store "sensors" "21" 1000]).ExactFor id "sensors.#" {} [] ∧
    topicMatches "sensors.#" "sensors" = true ∧
    BytesBelow (asBytes "sensors") (asBytes (literalPrefix "sensors.#")) := by
  refine ⟨by decide +kernel, ?_, by decide, by decide⟩
  intro exact
  have size := (exact "sensors").length_eq
  have one : ((Db.after [.store "sensors" "21" 1000]).expected id "sensors.#" {} "sensors").length =
      1 := by decide +kernel
  rw [one] at size
  cases size

end AimDb.Persistence
