import ArenaLisp.Main
import ArenaLisp.Text.Progress
import ArenaLisp.Proofs.Session.Runs
import ArenaLisp.Proofs.Session.Timing
import ArenaLisp.Proofs.Arena.Environments
import ArenaLisp.Proofs.Machine.Mirrored
import ArenaLisp.Proofs.Machine.Mirrors.Arguments
import ArenaLisp.Proofs.Machine.Mirrors.Evaluation
import ArenaLisp.Proofs.Session.Refinement
import ArenaLisp.Proofs.Session.Protection
import ArenaLisp.Proofs.Session.Globals
import ArenaLisp.Proofs.Session.Cycles
import ArenaLisp.Proofs.Session.Spelling
import ArenaLisp.Proofs.Session.Balance
import ArenaLisp.Proofs.Session.Loading
import ArenaLisp.Proofs.Session.Concatenation
import ArenaLisp.Proofs.Session.Headroom
import ArenaLisp.Proofs.Text.Tails
import ArenaLisp.Proofs.Text.Fresh
import ArenaLisp.Proofs.Text.Layouts
import ArenaLisp.Proofs.Session.Endings
import ArenaLisp.Proofs.Arena.Clients
import ArenaLisp.Proofs.Machine.Variables
import ArenaLisp.Proofs.Session.Echo
import ArenaLisp.Proofs.Session.Discipline
import ArenaLisp.Proofs.CommandLine.Sizes
import ArenaLisp.Proofs.Text.Codes
import ArenaLisp.Proofs.CommandLine.Arguments
import ArenaLisp.Proofs.CommandLine.Program
