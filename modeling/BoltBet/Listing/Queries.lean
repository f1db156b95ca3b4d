import BoltBet.Betting.Types
import BoltBet.Listing.Pages
import BoltBet.Market.Types

/-!
# The paginated queries

`getTransactions`, `getBets` and `MarketService.list`: one `findAndCount` each, ordered by
`createdAt: 'DESC'` and by nothing else. Postgres may see rows with one `createdAt` in any order,
and in another one at the next query (`seen`). `page` and `limit` may be any integers: TypeORM sends
no clause for a 0, and Postgres takes no negative one.

* `orders_ordered`, `ordered_of_orders`: a query sees an order that its ORDER BY allows, and any
  such order may be seen.
* `findAndCount_page`: the query of a page, from 1, throws nothing and answers the page.
* `pages_partition_iff`: the pages of a list hold every row exactly once, whatever orders their
  queries see, exactly when no page ends between two rows with one `createdAt`.
-/

namespace BoltBet

open Paging

/-- The contents of a table: its primary key is unique. -/
structure Table (Row : Type) (id : Row → Uuid) where
  rows : List Row
  key : (rows.map id).Nodup

/-- The rows that match a `where`. -/
def Table.matching {Row : Type} {id : Row → Uuid} (table : Table Row id) (p : Row → Bool) :
    List Row := table.rows.filter p

/-- The page size after `Math.min(limit, 100)`. -/
structure PageLimit where
  value : Nat
  min : 1 ≤ value
  max : value ≤ 100

/-- The rows are seen as `seen` says, if the ORDER BY allows it. -/
def ordered {Row : Type} [DecidableEq Row] (createdAt : Row → Nat) (found seen : List Row) :
    List Row :=
  if seen.Perm found ∧ Descending createdAt seen then seen
  else found.mergeSort fun a b => createdAt b ≤ createdAt a

/-- The rows of a LIMIT, which `take: 0` leaves out. -/
def limited {Row : Type} (take : Int) (rows : List Row) : List Row :=
  if take = 0 then rows else rows.take take.toNat

/-- `findAndCount({ where, order: { createdAt: 'DESC' }, skip, take })`: the rows of a page, and the
number of all. -/
def findAndCount {Row : Type} [DecidableEq Row] (createdAt : Row → Nat) (found seen : List Row)
    (skip take : Int) : Except Err (List Row × Nat) :=
  if skip < 0 then .error (.QueryFailedError "OFFSET must not be negative")
  else if take < 0 then .error (.QueryFailedError "LIMIT must not be negative")
  else
    .ok (limited take ((ordered createdAt found seen).drop skip.toNat), found.length)

/-- `TransactionListResponseDto`. -/
structure TransactionListResponseDto where
  transactions : List TransactionResponseDto
  total : Nat
  page : Int
  limit : Int
  deriving DecidableEq, Repr

/-- `BetListResponseDto`. -/
structure BetListResponseDto where
  bets : List BetResponseDto
  total : Nat
  page : Int
  limit : Int
  deriving DecidableEq, Repr

/-- `MarketListResponseDto`. -/
structure MarketListResponseDto where
  markets : List MarketResponseDto
  total : Nat
  page : Int
  limit : Int
  deriving DecidableEq, Repr

/-- The rows of `walletTransactions` on the replica. -/
abbrev TransactionTable := Table WalletTransaction WalletTransaction.id

/-- The rows of `bets` on the replica. -/
abbrev BetTable := Table Bet Bet.id

/-- The rows of `markets`. -/
abbrev MarketTable := Table Market Market.id

/-- `getTransactions`; pages count from 1. -/
def WalletService.getTransactions (table : TransactionTable) (seen : List WalletTransaction)
    (userId : Uuid) (page limit : Int) : Except Err TransactionListResponseDto :=
  (findAndCount WalletTransaction.createdAt (table.matching fun tx => tx.userId = userId) seen
    ((page - 1) * limit) limit).map fun found =>
      { transactions := found.1.map toTransactionDto, total := found.2, page, limit }

/-- `getBets`. -/
def BettingService.getBets (table : BetTable) (seen : List Bet) (userId : Uuid)
    (page limit : Int) : Except Err BetListResponseDto :=
  (findAndCount Bet.createdAt (table.matching fun bet => bet.userId = userId) seen
    ((page - 1) * limit) limit).map fun found =>
      { bets := found.1.map Bet.toDto, total := found.2, page, limit }

/-- `MarketService.list`. -/
def MarketService.list (table : MarketTable) (seen : List Market) (status : Option MarketStatus)
    (page limit : Int) : Except Err MarketListResponseDto :=
  (findAndCount Market.createdAt (table.matching fun market => ∀ st ∈ status, market.status = st)
    seen ((page - 1) * limit) limit).map fun found =>
      { markets := found.1.map Market.toDto, total := found.2, page, limit }

/-- `getBetById`: a bet is shown to its owner, and to an administrator. -/
def BettingService.getBetById (table : BetTable) (requestingUserId : Uuid)
    (requestingUserRole : Role) (betId : Uuid) : Except Err BetResponseDto :=
  match table.rows.find? fun bet => bet.id = betId with
  | none => .error (.NotFoundException s!"Bet {betId} not found")
  | some bet =>
    if bet.userId ≠ requestingUserId ∧ requestingUserRole ≠ .ADMIN then
      .error (.ForbiddenException "You do not have access to this bet")
    else .ok bet.toDto

/-- `getMarket`. -/
def MarketService.getMarket (table : MarketTable) (marketId : Uuid) :
    Except Err MarketResponseDto :=
  match table.rows.find? fun market => market.id = marketId with
  | none => .error (.NotFoundException s!"Market {marketId} not found")
  | some market => .ok market.toDto

/-- Whatever orders their queries see, pages 1 to the last one are answered, and hold each row
exactly once. -/
def PagesPartition {Row Dto : Type} [DecidableEq Dto]
    (fetch : List Row → Nat → Except Err (List Dto)) (toDto : Row → Dto) (found : List Row)
    (limit : Nat) : Prop :=
  ∀ seen : Nat → List Row, ∃ pages : Nat → List Dto,
    (∀ p, 0 < p → fetch (seen p) p = .ok (pages p)) ∧
    ∀ row ∈ found, (concat pages (pageCount found.length limit)).count (toDto row) = 1

namespace Listing

variable {Row Dto : Type} {createdAt : Row → Nat} {found seen : List Row} {limit : Nat}

/-- What a query sees, its ORDER BY allows. -/
theorem orders_ordered [DecidableEq Row] (createdAt : Row → Nat) (found seen : List Row) :
    Orders createdAt found (ordered createdAt found seen) := by
  unfold ordered
  split
  · rename_i h
    exact ⟨h.1, h.2⟩
  · exact orders_mergeSort createdAt found

/-- What the ORDER BY allows, a query may see. -/
theorem ordered_of_orders [DecidableEq Row] (h : Orders createdAt found seen) :
    ordered createdAt found seen = seen := if_pos ⟨h.perm, h.descending⟩

/-- **The query of a page.** -/
theorem findAndCount_page [DecidableEq Row] (createdAt : Row → Nat) (found seen : List Row)
    {p : Nat} (hlimit : 0 < limit) (hp : 0 < p) :
    findAndCount createdAt found seen ((p - 1) * limit) limit =
      .ok (page limit p (ordered createdAt found seen), found.length) := by
  obtain ⟨q, rfl⟩ := Nat.exists_eq_succ_of_ne_zero hp.ne'
  have hskip : ((q.succ : ℤ) - 1) * limit = ((q * limit : Nat) : ℤ) := by
    push_cast
    rw [add_sub_cancel_right]
  unfold findAndCount limited page
  rw [hskip, if_neg (by omega), if_neg (by omega), if_neg (by omega), Int.toNat_natCast,
    Int.toNat_natCast]
  rfl

theorem concat_map (f : Row → Dto) (fetch : Nat → List Row) (n : Nat) :
    concat (fun p => (fetch p).map f) n = (concat fetch n).map f := by
  unfold concat
  rw [List.map_flatMap]

/-- Only pages from 1 are joined. -/
theorem concat_congr {pages pages' : Nat → List Dto} (h : ∀ p, 0 < p → pages p = pages' p)
    (n : Nat) : concat pages n = concat pages' n :=
  List.flatMap_congr fun p _ => h (p + 1) p.succ_pos

/-- **Pages of a query**: exactly without a cut they hold every row once. -/
theorem partition_iff [DecidableEq Row] [DecidableEq Dto] {toDto : Row → Dto}
    {fetch : List Row → Nat → Except Err (List Dto)} (hdto : (found.map toDto).Nodup)
    (hlimit : 0 < limit) (hfetch : ∀ seen p, fetch seen p =
      (findAndCount createdAt found seen ((p - 1) * limit) limit).map fun x => x.1.map toDto) :
    PagesPartition fetch toDto found limit ↔ ¬ CutsTie createdAt found limit := by
  have hfound : found.Nodup := .of_map toDto hdto
  have hpage : ∀ seen p, 0 < p → fetch seen p =
      .ok ((page limit p (ordered createdAt found seen)).map toDto) := by
    intro seen p hp
    rw [hfetch, findAndCount_page createdAt found seen hlimit hp]
    rfl
  constructor
  · intro h hcut
    obtain ⟨orders, horders, b, hb, hmissing⟩ :=
      exists_missing hfound hcut (pageCount found.length limit)
    obtain ⟨pages, hpages, hrows⟩ := h orders
    have hsame : ∀ p, 0 < p → pages p = (page limit p (orders p)).map toDto := by
      intro p hp
      have hok := (hpages p hp).symm.trans (hpage (orders p) p hp)
      rw [Except.ok.inj hok, ordered_of_orders (horders p)]
    have hcount := hrows b hb
    rw [concat_congr hsame, concat_map] at hcount
    obtain ⟨b', hb', heq⟩ := List.mem_map.mp (List.count_pos_iff.mp (hcount ▸ Nat.one_pos))
    have hfrom : b' ∈ found := by
      obtain ⟨p, -, hp⟩ := mem_concat.mp hb'
      exact (horders _).perm.mem_iff.mp (List.mem_of_mem_drop (List.mem_of_mem_take hp))
    obtain rfl := List.inj_on_of_nodup_map hdto hfrom hb heq
    exact hmissing hb'
  · intro hcut seen
    refine ⟨_, fun p hp => hpage (seen p) p hp, fun row hrow => ?_⟩
    rw [concat_map]
    have hordered := fun p => orders_ordered createdAt found (seen p)
    have hperm := pages_perm hcut hordered (pageCount found.length limit)
    rw [List.take_of_length_le ((hordered 0).perm.length_eq ▸ le_pageCount _ hlimit)] at hperm
    rw [((hperm.trans (hordered 0).perm).map toDto).count_eq]
    exact List.count_eq_one_of_mem hdto (List.mem_map_of_mem hrow)

/-- A field of an answer. -/
theorem map_map_except {ε α β γ : Type} (x : Except ε α) (f : α → β) (g : β → γ) :
    (x.map f).map g = x.map (g ∘ f) := by
  cases x <;> rfl

/-- The answers for the rows of a table differ, as their ids do. -/
theorem nodup_dtos {id : Row → Uuid} (table : Table Row id) (p : Row → Bool) (toDto : Row → Dto)
    (dtoId : Dto → Uuid) (hid : ∀ row, dtoId (toDto row) = id row) :
    ((table.matching p).map toDto).Nodup := by
  refine List.Nodup.of_map dtoId ?_
  have hmap : dtoId ∘ toDto = id := funext hid
  rw [List.map_map, hmap]
  exact table.key.sublist (List.filter_sublist.map id)

end Listing

open Listing

/-- **The pages of a list** hold every matching row exactly once, whatever the database does with
rows of one `createdAt`, exactly when no page ends between two such rows. -/
theorem pages_partition_iff (limit : PageLimit) :
    (∀ (table : TransactionTable) (userId : Uuid), PagesPartition (fun seen page =>
        (WalletService.getTransactions table seen userId page limit.value).map (·.transactions))
        toTransactionDto (table.matching fun tx => tx.userId = userId) limit.value ↔
      ¬ CutsTie WalletTransaction.createdAt (table.matching fun tx => tx.userId = userId)
        limit.value) ∧
    (∀ (table : BetTable) (userId : Uuid), PagesPartition (fun seen page =>
        (BettingService.getBets table seen userId page limit.value).map (·.bets))
        Bet.toDto (table.matching fun bet => bet.userId = userId) limit.value ↔
      ¬ CutsTie Bet.createdAt (table.matching fun bet => bet.userId = userId) limit.value) ∧
    ∀ (table : MarketTable) (status : Option MarketStatus), PagesPartition (fun seen page =>
        (MarketService.list table seen status page limit.value).map (·.markets))
        Market.toDto (table.matching fun market => ∀ st ∈ status, market.status = st) limit.value ↔
      ¬ CutsTie Market.createdAt (table.matching fun market => ∀ st ∈ status, market.status = st)
        limit.value :=
  ⟨fun table _ => partition_iff
      (nodup_dtos table _ toTransactionDto TransactionResponseDto.id fun _ => rfl) limit.min
      fun _ _ => map_map_except _ _ _,
    fun table _ => partition_iff
      (nodup_dtos table _ Bet.toDto BetResponseDto.id fun _ => rfl) limit.min
      fun _ _ => map_map_except _ _ _,
    fun table _ => partition_iff
      (nodup_dtos table _ Market.toDto MarketResponseDto.id fun _ => rfl) limit.min
      fun _ _ => map_map_except _ _ _⟩

/-- Two deposits of user 7, recorded at one time. -/
def twoAtOnce : TransactionTable where
  rows := [⟨1, 70, 7, .DEPOSIT, 500, 500, some 11, some "Deposit", 3⟩,
    ⟨2, 70, 7, .DEPOSIT, 600, 1100, some 12, some "Deposit", 3⟩]
  key := by decide

/-- **The lost transaction**: on pages of one row, the query of the second page sees the two
deposits the other way round. Both pages show the first deposit, and none shows the second. -/
theorem transaction_lost :
    (WalletService.getTransactions twoAtOnce twoAtOnce.rows 7 1 1).map
      (fun dto => dto.transactions.map TransactionResponseDto.id) = .ok [1] ∧
    (WalletService.getTransactions twoAtOnce twoAtOnce.rows.reverse 7 2 1).map
      (fun dto => dto.transactions.map TransactionResponseDto.id) = .ok [1] ∧
    ¬ PagesPartition (fun seen page =>
        (WalletService.getTransactions twoAtOnce seen 7 page 1).map (·.transactions))
      toTransactionDto (twoAtOnce.matching fun tx => tx.userId = 7) 1 := by
  refine ⟨rfl, rfl, fun h => ?_⟩
  obtain ⟨pages, hpages, hrows⟩ :=
    h fun p => if p = 1 then twoAtOnce.rows else twoAtOnce.rows.reverse
  have hcount := hrows ⟨2, 70, 7, .DEPOSIT, 600, 1100, some 12, some "Deposit", 3⟩
    (by decide +kernel)
  have hfirst : pages 1 = [⟨1, .DEPOSIT, 500, "$5.00", 500, "$5.00", some 11, some "Deposit", 3⟩] :=
    (Except.ok.inj (hpages 1 (by decide))).symm
  have hsecond : pages 2 = pages 1 := (Except.ok.inj (hpages 2 (by decide))).symm.trans hfirst.symm
  have hpages : concat pages 2 = [] ++ pages 1 ++ pages 2 := by
    rw [concat_succ, concat_succ]
    rfl
  have hzero : (concat pages 2).count (toTransactionDto
      ⟨2, 70, 7, .DEPOSIT, 600, 1100, some 12, some "Deposit", 3⟩) = 0 := by
    rw [hpages, hsecond, hfirst]
    decide +kernel
  exact absurd (hzero.symm.trans hcount) (by decide)

end BoltBet
