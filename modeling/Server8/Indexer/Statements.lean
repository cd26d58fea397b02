import Server8.Indexer.IndexerCallback
import Server8.Lib.Tokens

-- The statements that `getSeasonDetail` and `getVideoDetail` build out of what the responses say.

namespace Server8

namespace Sql

open Lexis

def lexis : Lexis UInt8 where
  quote   := 39
  isWord  := isWord
  isSpace := isSpace

structure Insert where
  table  : Bytes
  values : List Bytes
  deriving DecidableEq, Repr

-- Literals with a comma between them, up to the closing parenthesis.
def values : List (Lexis.Token UInt8) → Option (List Bytes)
  | .literal w :: .sign a :: rest =>
    if a = 41 then if rest = [] then some [w] else none
    else if a = 44 then (values rest).map (w :: ·)
    else none
  | _ => none

-- One statement `insert into table values(...)`, and nothing behind it.
def parse (sql : Bytes) : Option Insert :=
  match lexis.tokens sql with
  | some (.word insert :: .word into :: .word table :: .word keyword :: .sign 40 :: rest) =>
    if insert.map GetData.toLower = ascii "insert" ∧ into.map GetData.toLower = ascii "into" ∧
        keyword.map GetData.toLower = ascii "values" then
      (values rest).map fun ws => { table, values := ws }
    else none
  | _ => none

-- The literals of a statement, with the quotes in them as they are.
def quoted : Bytes → List Bytes → Bytes
  | w, []      => ascii "'" ++ w ++ ascii "')"
  | w, v :: ws => ascii "'" ++ w ++ ascii "'," ++ quoted v ws

def literals : Bytes → List Bytes → List (Lexis.Token UInt8)
  | w, []      => [.literal w, .sign 41]
  | w, v :: ws => .literal w :: .sign 44 :: literals v ws

section Literals

variable {w : Bytes} {ws : List Bytes}

theorem run_quoted_literal (hw : 39 ∉ w) {a : UInt8} (ha : lexis.start a = (.between, [.sign a])) (hq : a ≠ 39) :
    lexis.run .between (39 :: (w ++ [39, a])) = (.between, [.literal w, .sign a]) := by
  have hopen : lexis.step .between 39 = (.literal [], []) := rfl
  have hclose : lexis.step (.literal w) 39 = (.closed w, []) := rfl
  have hsign : lexis.step (.closed w) a = (.between, [.literal w, .sign a]) := by
    rw [step, if_neg (show ¬a = lexis.quote from hq), ha]
  rw [run, hopen, run_append, lexis.run_literal hw, List.nil_append, run, hclose, run, hsign]
  rfl

theorem tokens_quoted (h : ∀ v ∈ w :: ws, 39 ∉ v) : lexis.tokens (quoted w ws) = some (literals w ws) := by
  induction ws generalizing w
  case nil          =>
    have hrun := run_quoted_literal (h w List.mem_cons_self) (a := 41) rfl (by decide)
    have htext : quoted w [] = 39 :: (w ++ [39, 41]) ++ [] := by
      rw [List.append_nil]
      rfl
    rw [htext, lexis.tokens_append hrun]
    rfl
  case cons v ws ih =>
    obtain ⟨hw, h⟩ := List.forall_mem_cons.mp h
    have hrun := run_quoted_literal hw (a := 44) rfl (by decide)
    have htext : quoted w (v :: ws) = 39 :: (w ++ [39, 44]) ++ quoted v ws :=
      rfl
    rw [htext, lexis.tokens_append hrun, ih h]
    rfl

theorem values_literals (w : Bytes) (ws : List Bytes) : values (literals w ws) = some (w :: ws) := by
  induction ws generalizing w
  case nil          => rfl
  case cons v ws ih =>
    rw [literals, values, if_neg (by decide), if_pos rfl, ih]
    rfl

theorem total_of_values {ts : List (Lexis.Token UInt8)} (h : values ts = some ws) :
    lexis.total ts = (ws.map fun w => w.length + 3).sum + (ws.map (·.count 39)).sum := by
  induction ts using values.induct generalizing ws
  case case1 w =>
    rw [values, if_pos rfl, if_pos rfl] at h
    cases h
    simp [lexis, size, Nat.add_right_comm]
  case case2 w rest hr =>
    rw [values, if_pos rfl, if_neg hr] at h
    cases h
  case case3 w rest hne ih =>
    rw [values, if_neg hne, if_pos rfl] at h
    obtain ⟨vs, hvs, rfl⟩ := Option.map_eq_some_iff.mp h
    rw [total_cons, total_cons, ih hvs, size_literal]
    simp only [List.map_cons, List.sum_cons, lexis, size]
    omega
  case case4 w a rest h₁ h₂ =>
    rw [values, if_neg h₁, if_neg h₂] at h
    cases h
  case case5 ts hts =>
    rw [values] at h
    cases h
    exact hts

theorem length_quoted (w : Bytes) (ws : List Bytes) :
    (quoted w ws).length = ((w :: ws).map fun w => w.length + 3).sum := by
  induction ws generalizing w
  case nil          => simp [quoted, ascii]
  case cons v ws ih =>
    rw [quoted, List.length_append, ih, List.map_cons, List.sum_cons]
    simp [ascii]

-- There is no room for the second quotes.
theorem values_quoted {ts : List (Lexis.Token UInt8)} (ht : lexis.tokens (quoted w ws) = some ts)
    (hv : values ts = some (w :: ws)) : ∀ v ∈ w :: ws, 39 ∉ v := by
  have hle := lexis.total_le ht
  rw [total_of_values hv, length_quoted] at hle
  have hsum : ((w :: ws).map (·.count 39)).sum = 0 := by
    omega
  intro v hm
  have hcount := List.sum_eq_zero_iff_forall_eq_nat.mp hsum _ (List.mem_map_of_mem hm)
  exact List.count_eq_zero.mp hcount

end Literals

-- What a function of the callback puts in front of the values.
def heading (table : Bytes) : Bytes :=
  ascii "insert into " ++ table ++ ascii " values("

def headingTokens (table : Bytes) : List (Lexis.Token UInt8) :=
  [.word (ascii "insert"), .word (ascii "into"), .word table, .word (ascii "values"), .sign 40]

-- The statement is read back if and only if there is no quote in the values.
theorem parse_iff {table : Bytes} (ht : lexis.run .between (heading table) = (.between, headingTokens table))
    (w : Bytes) (ws : List Bytes) :
    parse (heading table ++ quoted w ws) = some { table, values := w :: ws } ↔ ∀ v ∈ w :: ws, 39 ∉ v := by
  have hparse : parse (heading table ++ quoted w ws) =
      (lexis.tokens (quoted w ws)).bind fun rest => (values rest).map fun ws => { table, values := ws } := by
    rw [parse, lexis.tokens_append ht]
    cases lexis.tokens (quoted w ws)
    case none      => rfl
    case some rest => exact if_pos (by decide)
  rw [hparse]
  constructor
  case mp =>
    intro h
    obtain ⟨rest, hrest, h⟩ := Option.bind_eq_some_iff.mp h
    obtain ⟨vs, hvs, he⟩ := Option.map_eq_some_iff.mp h
    cases he
    exact values_quoted hrest hvs
  case mpr =>
    intro h
    rw [tokens_quoted h, Option.bind_some, values_literals]
    rfl

end Sql

namespace IndexerCallback

open Regex Sql

variable {arg : ArgItem} {data s : Bytes} {results : Pos UInt8}

theorem notMem_seasonParse (h : find seasonParsePattern s = some results) :
    ∀ i ∈ [2, 3, 4, 5], 39 ∉ str results i := by
  have hc : ∀ i ∈ [2, 3, 4, 5], ∀ n, (seasonParsePattern n).Confines i isDigit := by
    simp [seasonParsePattern, text, digits, any]
  exact fun i hi => notMem_of_within (Confines.find (hc i hi) h) rfl

theorem notMem_videoDetail (h : find videoDetailPattern s = some results) :
    ∀ i ∈ [1, 2, 3, 4, 5, 6, 7, 8], 39 ∉ str results i := by
  have hc : ∀ i ∈ [1, 2, 3, 4, 5, 6, 7, 8], ∀ n, (videoDetailPattern n).Confines i isDigit := by
    simp [videoDetailPattern, digits]
  exact fun i hi => notMem_of_within (Confines.find (hc i hi) h) rfl

theorem getSeasonDetail_sql (hs : GetData.cString data = some s) (ha : arg.seasonID ≠ [])
    (hr : find seasonParsePattern s = some results) :
    (getSeasonDetail arg data).map Output.sql = some (some (heading (ascii "seasonParse") ++
      quoted arg.seasonID [str results 1, str results 2, str results 3, str results 4, str results 5])) := by
  have hlength : arg.seasonID.length ≠ 0 := fun h => ha (List.length_eq_zero_iff.mp h)
  have hheading : ascii "insert into seasonParse values(" = heading (ascii "seasonParse") := rfl
  simp [getSeasonDetail, hlength, hs, hr, hheading, quoted]

theorem getVideoDetail_sql (hs : GetData.cString data = some s) (hr : find videoDetailPattern s = some results) :
    (getVideoDetail arg data).map Output.sql = some (some (heading (ascii "video") ++
      quoted arg.videoID [arg.bangumiID, arg.seasonID, str results 1, str results 2, str results 3, str results 4,
        str results 5, str results 6, str results 7, str results 8, []])) := by
  have hheading : ascii "insert into video values(" = heading (ascii "video") := rfl
  have hlast : ascii "'')" = ascii "'" ++ ascii "')" := rfl
  simp [getVideoDetail, hs, hr, hheading, hlast, quoted]

-- A statement with these values is executed.
def Executes (o : Option Output) (table : Bytes) (values : List Bytes) : Prop :=
  ∃ sql, o.map Output.sql = some (some sql) ∧ parse sql = some { table, values }

theorem executes_iff {o : Option Output} {table w : Bytes} {ws : List Bytes}
    (ht : lexis.run .between (heading table) = (.between, headingTokens table))
    (ho : o.map Output.sql = some (some (heading table ++ quoted w ws))) :
    Executes o table (w :: ws) ↔ ∀ v ∈ w :: ws, 39 ∉ v := by
  rw [← parse_iff ht]
  constructor
  case mp  =>
    rintro ⟨sql, hsql, hp⟩
    rw [ho] at hsql
    cases hsql
    exact hp
  case mpr => exact fun hp => ⟨_, ho, hp⟩

-- Both statements have the values that were found, and nothing else, if and only if there is no single
-- quote in the texts that are not digits. The last value of `video` is always empty.
theorem executes_exact_iff (arg : ArgItem) (data s : Bytes) (results : Pos UInt8)
    (hs : GetData.cString data = some s) :
    (arg.seasonID ≠ [] → find seasonParsePattern s = some results →
      (Executes (getSeasonDetail arg data) (ascii "seasonParse") [arg.seasonID, str results 1, str results 2,
        str results 3, str results 4, str results 5] ↔ 39 ∉ arg.seasonID ∧ 39 ∉ str results 1)) ∧
    (find videoDetailPattern s = some results →
      (Executes (getVideoDetail arg data) (ascii "video") [arg.videoID, arg.bangumiID, arg.seasonID,
        str results 1, str results 2, str results 3, str results 4, str results 5, str results 6, str results 7,
        str results 8, []] ↔ 39 ∉ arg.videoID ∧ 39 ∉ arg.bangumiID ∧ 39 ∉ arg.seasonID)) := by
  constructor
  case left  =>
    intro ha hr
    have hd := notMem_seasonParse hr
    rw [executes_iff (by decide) (getSeasonDetail_sql hs ha hr)]
    simp only [List.forall_mem_cons, List.not_mem_nil, false_implies, implies_true, and_true] at hd ⊢
    exact ⟨fun h => ⟨h.left, h.right.left⟩, fun h => ⟨h.left, h.right, hd⟩⟩
  case right =>
    intro hr
    have hd := notMem_videoDetail hr
    rw [executes_iff (by decide) (getVideoDetail_sql hs hr)]
    simp only [List.forall_mem_cons, List.not_mem_nil, false_implies, implies_true, not_false_eq_true,
      and_true] at hd ⊢
    exact ⟨fun h => ⟨h.left, h.right.left, h.right.right.left⟩,
      fun h => ⟨h.left, h.right.left, h.right.right, hd⟩⟩

section Responses

def bangumiResponse : Bytes :=
  ascii "\x7b\"cover\":\"\",\"favorites\":1,\"is_finish\":1,\"newest_ep_index\":\"\",\"pub_time\":1,\"season_id\":\"1\"," ++
  ascii "\"season_status\":1,\"title\":\"\",\"total_count\":1,\"update_time\":1,\"url\":\"\",\"week\":\"\"\x7d"

-- The current season, and one season in the list.
def seasonListResponse : Bytes :=
  ascii "\x7b\"bangumi_id\":\"1\",\"cover\":\"\",\"is_finish\":\"\",\"newest_ep_id\":\"\",\"newest_ep_index\":\"\"," ++
  ascii "\"season_id\":\"2\",\"season_status\":1,\"season_title\":\"\",\"total_count\":\"\"," ++
  ascii "\x7b\"bangumi_id\":\"1\",\"cover\":\"\",\"is_finish\":\"\",\"newest_ep_id\":\"\",\"newest_ep_index\":\"\"," ++
  ascii "\"season_id\":\"2\",\"season_status\":1,\"title\":\"\",\"total_count\":\"\"\x7d"

-- The identifier in the response has a quote.
def seasonResponse : Bytes :=
  ascii "\"bangumi_id\":\"1'\",\"coins\":\"2\",\"danmaku_count\":\"3\",\"favorites\":\"4\",\"play_count\":\"5\""

def videoResponse : Bytes :=
  ascii "\x7b\"view\":1,\"danmaku\":2,\"reply\":3,\"favorite\":4,\"coin\":5,\"share\":6," ++
  ascii "\"now_rank\":7,\"his_rank\":8\x7d"

def bangumiItem : ArgItem where
  bangumiID  := ascii "1"
  currentURL := seasonURL (ascii "1")
  operation  := .getSeasonList

def seasonItem : ArgItem where
  bangumiID  := ascii "1"
  seasonID   := ascii "2"
  currentURL := seasonURL (ascii "2")
  operation  := .getSeasonDetail

theorem crawled_seasonItem : Crawled seasonItem := by
  have hpage : Crawled (page 1) := .page (by decide) (by decide)
  have hbangumi : Crawled bangumiItem := hpage.of_process (bangumiResponse ++ [0]) (by decide +kernel)
  exact hbangumi.of_process (seasonListResponse ++ [0]) (by decide +kernel)

theorem find_seasonResponse : ∃ results, find seasonParsePattern seasonResponse = some results :=
  Option.isSome_iff_exists.mp (by decide +kernel)

theorem find_videoResponse : ∃ results, find videoDetailPattern videoResponse = some results :=
  Option.isSome_iff_exists.mp (by decide +kernel)

theorem executes_exact_sample :
    (∃ results, find seasonParsePattern seasonResponse = some results ∧
      (Executes (getSeasonDetail seasonItem (seasonResponse ++ [0])) (ascii "seasonParse")
      [seasonItem.seasonID, str results 1, str results 2, str results 3, str results 4, str results 5] ↔
        39 ∉ seasonItem.seasonID ∧ 39 ∉ str results 1)) ∧
    (∃ results, find videoDetailPattern videoResponse = some results ∧
      (Executes (getVideoDetail seasonItem (videoResponse ++ [0])) (ascii "video")
      [seasonItem.videoID, seasonItem.bangumiID, seasonItem.seasonID, str results 1, str results 2,
        str results 3, str results 4, str results 5, str results 6, str results 7, str results 8, []] ↔
        39 ∉ seasonItem.videoID ∧ 39 ∉ seasonItem.bangumiID ∧ 39 ∉ seasonItem.seasonID)) := by
  obtain ⟨r₁, h₁⟩ := find_seasonResponse
  obtain ⟨r₂, h₂⟩ := find_videoResponse
  have hs : GetData.cString (seasonResponse ++ [0]) = some seasonResponse := by
    decide +kernel
  have hv : GetData.cString (videoResponse ++ [0]) = some videoResponse := by
    decide +kernel
  exact ⟨⟨r₁, h₁, (executes_exact_iff seasonItem _ _ r₁ hs).left (by decide) h₁⟩,
    ⟨r₂, h₂, (executes_exact_iff seasonItem _ _ r₂ hv).right h₂⟩⟩

theorem executes_not_exact :
    ¬∀ arg data s results, Crawled arg → GetData.cString data = some s → arg.seasonID ≠ [] →
      find seasonParsePattern s = some results →
      Executes (getSeasonDetail arg data) (ascii "seasonParse") [arg.seasonID, str results 1, str results 2,
        str results 3, str results 4, str results 5] := by
  intro h
  obtain ⟨results, hr⟩ := find_seasonResponse
  have hs : GetData.cString (seasonResponse ++ [0]) = some seasonResponse := by
    decide +kernel
  have he := h seasonItem _ _ results crawled_seasonItem hs (by decide) hr
  rw [executes_iff (by decide) (getSeasonDetail_sql hs (by decide) hr)] at he
  have hfirst : (find seasonParsePattern seasonResponse).map (str · 1) = some (ascii "1'") := by
    decide +kernel
  rw [hr, Option.map_some, Option.some_inj] at hfirst
  have hquote : 39 ∉ str results 1 := he _ (List.mem_cons_of_mem _ List.mem_cons_self)
  rw [hfirst] at hquote
  exact hquote (by decide)

end Responses

end IndexerCallback

end Server8
