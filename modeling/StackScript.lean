import StackScript.Main
import StackScript.Proofs.ControlFlow
import StackScript.Proofs.RoundTrip
import StackScript.Proofs.ScopeDiscipline
import StackScript.Proofs.SeparateCompilation
import StackScript.Proofs.RebasedLinking
import StackScript.Proofs.LinkedProgram
import StackScript.Proofs.ParsedShape
import StackScript.Proofs.StackDepth
import StackScript.Proofs.Purity
import StackScript.Proofs.SourcePieces
import StackScript.Proofs.CorrectPrefix
import StackScript.Proofs.CallerScopes
import StackScript.Proofs.CallLimit
import StackScript.Proofs.ConsistentUnits
import StackScript.Proofs.Sessions
import StackScript.Proofs.StoredUnits
import StackScript.Proofs.SourceDivision
import StackScript.Proofs.StrictLexing
import StackScript.Proofs.TokenContent
import StackScript.Proofs.TokenRendering
import StackScript.Proofs.ReturnPlaces
import StackScript.Proofs.Registration
import StackScript.Proofs.SinkRoom
import StackScript.Proofs.FunctionNames
import StackScript.Proofs.ErrorPlaces
import StackScript.Proofs.StoredReports
import StackScript.Proofs.SourceListings
import StackScript.Proofs.ExactPools
import StackScript.Proofs.PostfixCode
import StackScript.Proofs.PairedJumps
import StackScript.Proofs.Backpatching
import StackScript.Proofs.UnmovedJumps
import StackScript.Proofs.ShownConstants
import StackScript.Proofs.ParserProgress
