import Server8.Indexer.CombineChunk
import Server8.Lib.Groups

-- The callback of Indexer2.cpp: what it finds in a response, the items it submits and the statement it
-- executes.

namespace Server8

open Regex

inductive Operation
  | getBangumiList
  | getSeasonList
  | getSeasonDetail
  | getVideoID
  | getVideoDetail
  deriving DecidableEq, Repr

structure ArgItem where
  bangumiID  : Bytes := []
  seasonID   : Bytes := []
  episodeID  : Bytes := []
  videoID    : Bytes := []
  currentURL : Bytes := []
  operation  : Operation
  deriving DecidableEq, Repr

namespace IndexerCallback

open GetData

section Patterns

-- `[^"]`.
def isText (b : UInt8) : Bool :=
  b != 34

-- A group behind its name: `([^"]*)` and `(\d*)`.

def text (name : String) (i : Nat) : Regex UInt8 :=
  seq (lit (ascii name)) (group i (star (cls isText)))

def digits (name : String) (i : Nat) : Regex UInt8 :=
  seq (lit (ascii name)) (group i (star (cls isDigit)))

-- `((?:(?:\\")|(?:[^"]))*)`.
def title (name : String) (i : Nat) : Regex UInt8 :=
  seq (lit (ascii name)) (group i (star (alt (lit (ascii "\\\"")) (cls isText))))

-- `.*?`, where `.` is any character.
def any (n : Nat) : Regex UInt8 :=
  lazyStar (cls fun _ => true) n

def bangumiIndexPattern (_ : Nat) : Regex UInt8 :=
  seq (text "\x7b\"cover\":\"" 1) <|
  seq (digits "\",\"favorites\":" 2) <|
  seq (digits ",\"is_finish\":" 3) <|
  seq (text ",\"newest_ep_index\":\"" 4) <|
  seq (digits "\",\"pub_time\":" 5) <|
  seq (text ",\"season_id\":\"" 6) <|
  seq (digits "\",\"season_status\":" 7) <|
  seq (title ",\"title\":\"" 8) <|
  seq (digits "\",\"total_count\":" 9) <|
  seq (digits ",\"update_time\":" 10) <|
  seq (text ",\"url\":\"" 11) <|
  seq (text "\",\"week\":\"" 12) <|
  (lit (ascii "\"\x7d"))

def seasonIndexPattern (_ : Nat) : Regex UInt8 :=
  seq (text "\x7b\"bangumi_id\":\"" 1) <|
  seq (text "\",\"cover\":\"" 2) <|
  seq (text "\",\"is_finish\":\"" 3) <|
  seq (text "\",\"newest_ep_id\":\"" 4) <|
  seq (text "\",\"newest_ep_index\":\"" 5) <|
  seq (text "\",\"season_id\":\"" 6) <|
  seq (digits "\",\"season_status\":" 7) <|
  seq (title ",\"title\":\"" 8) <|
  seq (text "\",\"total_count\":\"" 9) <|
  (lit (ascii "\"\x7d"))

def currentSeasonPattern (n : Nat) : Regex UInt8 :=
  seq (text "\"bangumi_id\":\"" 1) <|
  seq (lit (ascii "\"")) <|
  seq (any n) <|
  seq (text "\"cover\":\"" 2) <|
  seq (lit (ascii "\"")) <|
  seq (any n) <|
  seq (text "\"is_finish\":\"" 3) <|
  seq (lit (ascii "\"")) <|
  seq (any n) <|
  seq (lit (ascii "\"")) <|
  seq (opt (seq (text "newest_ep_id\":\"" 4) (lit (ascii "\"")))) <|
  seq (any n) <|
  seq (text "\"newest_ep_index\":\"" 5) <|
  seq (lit (ascii "\"")) <|
  seq (any n) <|
  seq (text "\"season_id\":\"" 6) <|
  seq (digits "\",\"season_status\":" 7) <|
  seq (title ",\"season_title\":\"" 8) <|
  seq (lit (ascii "\"")) <|
  seq (any n) <|
  seq (text "\"total_count\":\"" 9) <|
  (lit (ascii "\","))

def episodeIndexPattern (n : Nat) : Regex UInt8 :=
  seq (text "\x7b\"av_id\":\"" 1) <|
  seq (lit (ascii "\",")) <|
  seq (opt (seq (text "\"coins\":\"" 2) (lit (ascii "\",")))) <|
  seq (text "\"cover\":\"" 3) <|
  seq (text "\",\"episode_id\":\"" 4) <|
  seq (digits "\",\"episode_status\":" 5) <|
  seq (text ",\"index\":\"" 6) <|
  seq (title "\",\"index_title\":\"" 7) <|
  seq (lit (ascii "\",")) <|
  seq (opt (seq (text "\"is_new\":\"" 8) (lit (ascii "\",")))) <|
  seq (text "\"is_webplay\":\"" 9) <|
  seq (text "\",\"mid\":\"" 10) <|
  seq (text "\",\"page\":\"" 11) <|
  seq (lit (ascii "\",\"up\":\x7b")) <|
  seq (group 12 (any n)) <|
  seq (text "\x7d,\"update_time\":\"" 13) <|
  seq (text "\",\"webplay_url\":\"" 14) <|
  (lit (ascii "\"\x7d"))

def videoIDPattern (_ : Nat) : Regex UInt8 :=
  seq (digits "\x7b\"aid\":" 1) <|
  seq (digits ",\"cid\":" 2) <|
  seq (digits ",\"episode_status\":" 3) <|
  seq (text ",\"player\":\"" 4) <|
  seq (digits "\",\"pre_ad\":" 5) <|
  seq (digits ",\"season_status\":" 6) <|
  seq (text ",\"vid\":\"" 7) <|
  (lit (ascii "\"\x7d"))

def videoDetailPattern (_ : Nat) : Regex UInt8 :=
  seq (digits "\x7b\"view\":" 1) <|
  seq (digits ",\"danmaku\":" 2) <|
  seq (digits ",\"reply\":" 3) <|
  seq (digits ",\"favorite\":" 4) <|
  seq (digits ",\"coin\":" 5) <|
  seq (digits ",\"share\":" 6) <|
  seq (digits ",\"now_rank\":" 7) <|
  seq (digits ",\"his_rank\":" 8) <|
  (lit (ascii "\x7d"))

def seasonParsePattern (n : Nat) : Regex UInt8 :=
  seq (text "\"bangumi_id\":\"" 1) <|
  seq (lit (ascii "\"")) <|
  seq (any n) <|
  seq (digits "\"coins\":\"" 2) <|
  seq (lit (ascii "\"")) <|
  seq (any n) <|
  seq (digits "\"danmaku_count\":\"" 3) <|
  seq (lit (ascii "\"")) <|
  seq (any n) <|
  seq (digits "\"favorites\":\"" 4) <|
  seq (lit (ascii "\"")) <|
  seq (any n) <|
  seq (digits "\"play_count\":\"" 5) <|
  (lit (ascii "\""))

end Patterns

-- What a function of the callback does besides its logs.
structure Output where
  submitted : List ArgItem    := []
  sql       : Option Bytes := none
  deriving DecidableEq, Repr

-- `results[i].str()`.
def str (results : Pos UInt8) (i : Nat) : Bytes :=
  (results.caps i).getD []

def seasonURL (id : Bytes) : Bytes :=
  ascii "http://bangumi.bilibili.com/jsonp/seasoninfo/" ++ id ++ ascii ".ver?callback=seasonListCallback&jsonp=jsonp"

def videoURL (id : Bytes) : Bytes :=
  ascii "http://api.bilibili.com/archive_stat/stat?aid=" ++ id ++ ascii "&type=jsonp"

def getBangumiList (_ : ArgItem) (data : Bytes) : Option Output := do
  let s ← cString data
  let bangumiIDList := (findAll bangumiIndexPattern s).map fun results => str results 6
  return {
    submitted := bangumiIDList.map fun it => {
      bangumiID  := it
      operation  := .getSeasonList
      currentURL := seasonURL it } }

-- The item changes too.
def getSeasonList (arg : ArgItem) (data : Bytes) : Option (ArgItem × Output) := do
  let s ← cString data
  match find currentSeasonPattern s with
  | none   => return (arg, {})
  | some _ =>
    let arg := { arg with operation := .getSeasonDetail, seasonID := arg.bangumiID }
    let seasonIDList := (findAll seasonIndexPattern s).map fun results => str results 6
    return (arg, {
      submitted := seasonIDList.map fun it => {
        bangumiID  := arg.bangumiID
        seasonID   := it
        operation  := .getSeasonDetail
        currentURL := seasonURL it } })

def getSeasonDetail (arg : ArgItem) (data : Bytes) : Option Output := do
  if arg.seasonID.length = 0 then return {}
  let s ← cString data
  let sql := (find seasonParsePattern s).map fun results =>
    ascii "insert into seasonParse values(" ++
    ascii "'" ++ arg.seasonID ++ ascii "'," ++
    ascii "'" ++ str results 1 ++ ascii "'," ++
    ascii "'" ++ str results 2 ++ ascii "'," ++
    ascii "'" ++ str results 3 ++ ascii "'," ++
    ascii "'" ++ str results 4 ++ ascii "'," ++
    ascii "'" ++ str results 5 ++ ascii "')"
  let episodeIDList := (findAll episodeIndexPattern s).map fun results => str results 1
  return {
    sql
    submitted := episodeIDList.map fun it => {
      bangumiID  := arg.bangumiID
      seasonID   := arg.seasonID
      videoID    := it
      operation  := .getVideoDetail
      currentURL := videoURL it } }

def getVideoID (arg : ArgItem) (data : Bytes) : Option Output := do
  let s ← cString data
  match find videoIDPattern s with
  | none         => return {}
  | some results =>
    return {
      submitted := [{
        bangumiID  := arg.bangumiID
        seasonID   := arg.seasonID
        episodeID  := arg.episodeID
        videoID    := str results 1
        operation  := .getVideoDetail
        currentURL := videoURL (str results 1) }] }

def getVideoDetail (arg : ArgItem) (data : Bytes) : Option Output := do
  let s ← cString data
  return {
    sql := (find videoDetailPattern s).map fun results =>
      ascii "insert into video values(" ++
      ascii "'" ++ arg.videoID ++ ascii "'," ++
      ascii "'" ++ arg.bangumiID ++ ascii "'," ++
      ascii "'" ++ arg.seasonID ++ ascii "'," ++
      ascii "'" ++ str results 1 ++ ascii "'," ++
      ascii "'" ++ str results 2 ++ ascii "'," ++
      ascii "'" ++ str results 3 ++ ascii "'," ++
      ascii "'" ++ str results 4 ++ ascii "'," ++
      ascii "'" ++ str results 5 ++ ascii "'," ++
      ascii "'" ++ str results 6 ++ ascii "'," ++
      ascii "'" ++ str results 7 ++ ascii "'," ++
      ascii "'" ++ str results 8 ++ ascii "'," ++
      ascii "'')" }

-- The functions that `run` calls for an item with a response, each with the item that it gets. There is
-- no `break` behind `getSeasonList`.
def process (arg : ArgItem) (data : Bytes) : Option (List (ArgItem × Output)) :=
  match arg.operation with
  | .getBangumiList  => (getBangumiList arg data).map fun o => [(arg, o)]
  | .getSeasonList   => do
    let (arg', o) ← getSeasonList arg data
    let o' ← getSeasonDetail arg' data
    return [(arg, o), (arg', o')]
  | .getSeasonDetail => (getSeasonDetail arg data).map fun o => [(arg, o)]
  | .getVideoID      => (getVideoID arg data).map fun o => [(arg, o)]
  | .getVideoDetail  => (getVideoDetail arg data).map fun o => [(arg, o)]

-- An item of `deployIndexer`.
def page (pageCount : Nat) : ArgItem where
  operation  := .getBangumiList
  currentURL :=
    ascii "http://bangumi.bilibili.com/web_api/season/index?page=" ++ decimal pageCount ++
    ascii "&page_size=20&version=0&is_finish=0&start_year=0&quarter=0&tag_id=&index_type=1&index_sort=0"

-- The items of a crawl, whatever the responses are.
inductive Crawled : ArgItem → Prop
  | page {pageCount : Nat} : 1 ≤ pageCount → pageCount ≤ 144 → Crawled (page pageCount)
  | submitted {arg arg' a : ArgItem} {data : Bytes} {calls : List (ArgItem × Output)} {o : Output} :
      Crawled arg → process arg data = some calls → (arg', o) ∈ calls → a ∈ o.submitted → Crawled a

theorem Crawled.of_process {arg a : ArgItem} (h : Crawled arg) (data : Bytes)
    (ha : a ∈ ((process arg data).getD []).flatMap (·.2.submitted)) : Crawled a := by
  obtain ⟨call, hc, ha⟩ := List.mem_flatMap.mp ha
  cases hp : process arg data
  case none       => simp [hp] at hc
  case some calls =>
    rw [hp] at hc
    exact h.submitted hp (show (call.1, call.2) ∈ calls from hc) ha

section Identifiers

variable {arg arg' a : ArgItem} {data s : Bytes} {o : Output} {calls : List (ArgItem × Output)}

-- The identifiers of an item do not have the character `b`.
structure Lacks (b : UInt8) (arg : ArgItem) : Prop where
  bangumiID : b ∉ arg.bangumiID
  seasonID  : b ∉ arg.seasonID
  videoID   : b ∉ arg.videoID

theorem notMem_of_within {i : Nat} {p : UInt8 → Bool} {b : UInt8} {results : Pos UInt8}
    (h : Within i p results.caps) (hb : p b = false) : b ∉ str results i := by
  intro hm
  cases hc : results.caps i
  case none   => simp [str, hc] at hm
  case some w =>
    rw [str, hc] at hm
    exact Bool.noConfusion (hb.symm.trans (h w hc b hm))

theorem getBangumiList_lacks (h : getBangumiList arg data = some o) : ∀ a ∈ o.submitted, Lacks 34 a := by
  obtain ⟨s, _, h⟩ := Option.bind_eq_some_iff.mp h
  cases h
  simp only [List.forall_mem_map]
  intro results hr
  have hc : ∀ n, (bangumiIndexPattern n).Confines 6 isText := by
    simp [bangumiIndexPattern, text, digits, title]
  have hid := notMem_of_within (Confines.findAll hc hr) (show isText 34 = false from rfl)
  exact ⟨hid, List.not_mem_nil, List.not_mem_nil⟩

theorem getSeasonList_lacks (ha : Lacks 34 arg) (h : getSeasonList arg data = some (arg', o)) :
    Lacks 34 arg' ∧ ∀ a ∈ o.submitted, Lacks 34 a := by
  obtain ⟨s, _, h⟩ := Option.bind_eq_some_iff.mp h
  split at h
  case h_1 =>
    cases h
    exact ⟨ha, List.forall_mem_nil _⟩
  case h_2 =>
    cases h
    refine ⟨⟨ha.bangumiID, ha.bangumiID, ha.videoID⟩, ?_⟩
    simp only [List.forall_mem_map]
    intro results hr
    have hc : ∀ n, (seasonIndexPattern n).Confines 6 isText := by
      simp [seasonIndexPattern, text, digits, title]
    have hid := notMem_of_within (Confines.findAll hc hr) (show isText 34 = false from rfl)
    exact ⟨ha.bangumiID, hid, List.not_mem_nil⟩

theorem getSeasonDetail_lacks (ha : Lacks 34 arg) (h : getSeasonDetail arg data = some o) :
    ∀ a ∈ o.submitted, Lacks 34 a := by
  unfold getSeasonDetail at h
  split at h
  case isTrue  =>
    cases h
    exact List.forall_mem_nil _
  case isFalse =>
    obtain ⟨s, _, h⟩ := Option.bind_eq_some_iff.mp h
    cases h
    simp only [List.forall_mem_map]
    intro results hr
    have hc : ∀ n, (episodeIndexPattern n).Confines 1 isText := by
      simp [episodeIndexPattern, text, digits, title, any]
    have hid := notMem_of_within (Confines.findAll hc hr) (show isText 34 = false from rfl)
    exact ⟨ha.bangumiID, ha.seasonID, hid⟩

theorem getVideoID_lacks (ha : Lacks 34 arg) (h : getVideoID arg data = some o) :
    ∀ a ∈ o.submitted, Lacks 34 a := by
  obtain ⟨s, _, h⟩ := Option.bind_eq_some_iff.mp h
  split at h
  case h_1            =>
    cases h
    exact List.forall_mem_nil _
  case h_2 results hr =>
    cases h
    have hc : ∀ n, (videoIDPattern n).Confines 1 isDigit := by
      simp [videoIDPattern, text, digits]
    have hid := notMem_of_within (Confines.find hc hr) (show isDigit 34 = false from rfl)
    exact List.forall_mem_singleton.mpr ⟨ha.bangumiID, ha.seasonID, hid⟩

theorem process_lacks (ha : Lacks 34 arg) (h : process arg data = some calls) :
    ∀ call ∈ calls, ∀ a ∈ call.2.submitted, Lacks 34 a := by
  unfold process at h
  split at h
  case h_1 =>
    obtain ⟨o, ho, rfl⟩ := Option.map_eq_some_iff.mp h
    exact List.forall_mem_singleton.mpr (getBangumiList_lacks ho)
  case h_2 =>
    obtain ⟨w, hw, h⟩ := Option.bind_eq_some_iff.mp h
    obtain ⟨o, ho, h⟩ := Option.bind_eq_some_iff.mp h
    cases h
    have hlist := getSeasonList_lacks ha (show getSeasonList arg data = some (w.1, w.2) from hw)
    have hdetail := getSeasonDetail_lacks hlist.left ho
    exact List.forall_mem_cons.mpr ⟨hlist.right, List.forall_mem_singleton.mpr hdetail⟩
  case h_3 =>
    obtain ⟨o, ho, rfl⟩ := Option.map_eq_some_iff.mp h
    exact List.forall_mem_singleton.mpr (getSeasonDetail_lacks ha ho)
  case h_4 =>
    obtain ⟨o, ho, rfl⟩ := Option.map_eq_some_iff.mp h
    exact List.forall_mem_singleton.mpr (getVideoID_lacks ha ho)
  case h_5 =>
    obtain ⟨o, ho, rfl⟩ := Option.map_eq_some_iff.mp h
    obtain ⟨s, _, ho⟩ := Option.bind_eq_some_iff.mp ho
    cases ho
    exact List.forall_mem_singleton.mpr (List.forall_mem_nil _)

-- An identifier with a double quote is not found in the first place.
theorem Crawled.lacks (h : Crawled arg) : Lacks 34 arg := by
  induction h
  case page                             => exact ⟨List.not_mem_nil, List.not_mem_nil, List.not_mem_nil⟩
  case submitted arg' _ _ _ _ _ hp hc ha ih => exact process_lacks ih hp _ hc _ ha

end Identifiers

end IndexerCallback

end Server8
