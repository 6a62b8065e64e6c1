import Holdem.Proofs.Hand.Rounds
import Holdem.Proofs.HandValue.BestOfFive
import Holdem.Proofs.PotWinners
import Holdem.Proofs.SidePots
import Holdem.Request
import Holdem.Startup
import Holdem.Wire.Events
import Holdem.Wire.Tables
import Holdem.Proofs.Hand.Course
import Holdem.Proofs.Hand.Observer
import Holdem.Proofs.Hand.Redeal
import Holdem.Proofs.Hand.Secrecy
import Holdem.Proofs.Hand.Chronicle
import Holdem.Proofs.House.Seating
import Holdem.Proofs.Hand.Termination
import Holdem.Proofs.Hand.Cards
import Holdem.Proofs.House.Changes
import Holdem.Proofs.Table.Newcomers
import Holdem.Proofs.Table.Seeds
import Holdem.Proofs.Hand.Rotation
import Holdem.Proofs.Hand.Exactness
import Holdem.Proofs.House.Joining
import Holdem.Proofs.Hand.Refunds
import Holdem.Proofs.Hand.Starting
import Holdem.Proofs.Table.Button
import Holdem.Proofs.House.Listening
import Holdem.Proofs.House.Removal
import Holdem.Proofs.Hand.Leaving
import Holdem.Proofs.Hand.Prompts
import Holdem.Proofs.TurnCircle
import Holdem.Proofs.HandValue.Presentation
import Holdem.Proofs.Table.SeatBook
import Holdem.Proofs.Hand.Designation
import Holdem.Proofs.Table.BuyIns
