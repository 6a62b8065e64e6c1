import Holdem.Player

/-!
# What a table can refuse
-/
namespace Holdem

inductive TableError where
  | full
  | seatTaken (seat : SeatIndex)
  | noSuchSeat (seat : SeatIndex)
  | alreadySeated (player : PlayerId)
  | notSeated (player : PlayerId)
  | notFound (table : TableId)
  | buyIn (stack min max : Chips)
  | invalidConfig (reason : String)
  | tooManyChips (stack : Chips)
deriving Repr, DecidableEq

def TableError.message : TableError → String
  | full => "table is full"
  | seatTaken seat => s!"seat {seat} is taken"
  | noSuchSeat seat => s!"there is no seat {seat}"
  | alreadySeated player => s!"{playerText player} is already seated"
  | notSeated player => s!"{playerText player} is not seated here"
  | notFound table => s!"{tableText table} does not exist"
  | buyIn stack min max => s!"buy-in must be between {min} and {max}, got {stack}"
  | invalidConfig reason => "invalid table config: " ++ reason
  | tooManyChips stack =>
      s!"a buy-in of {stack} would put more chips on the table than it can count"

end Holdem
