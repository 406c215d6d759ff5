import PhpSlim.Main
import PhpSlim.Region.Cursor
import PhpSlim.Proofs.Reading
import PhpSlim.Proofs.BlankRescan
import PhpSlim.Proofs.CommentRescan
import PhpSlim.Proofs.ProtectedText
import PhpSlim.Proofs.CommentRemoval
import PhpSlim.Proofs.TokenBoundaries
import PhpSlim.Proofs.Grammar
import PhpSlim.Proofs.BlockIndependence
import PhpSlim.Proofs.CharsetRoundTrip
import PhpSlim.Proofs.NeededBlanks
import PhpSlim.Proofs.CompactTwice
import PhpSlim.Proofs.BlankForm
import PhpSlim.Proofs.CharsetReencoding
import PhpSlim.Proofs.CharsetErrors
import PhpSlim.Proofs.OutputSize
import PhpSlim.Proofs.StrippedText
import PhpSlim.Proofs.StageNames
import PhpSlim.Proofs.LastComponent
import PhpSlim.Proofs.PlainTree
import PhpSlim.Proofs.WalkCover
import PhpSlim.Proofs.BuildFrame
import PhpSlim.Proofs.LinkedPaths
import PhpSlim.Proofs.OutputFolders
import PhpSlim.Proofs.JobIndependence
import PhpSlim.Proofs.JobInterleaving
import PhpSlim.Proofs.GlobMeaning
import PhpSlim.Proofs.ExclusionCover
import PhpSlim.Proofs.Mirror
import PhpSlim.Proofs.Rejection
import PhpSlim.Proofs.AbsentFiles
import PhpSlim.Proofs.FailureIsolation
import PhpSlim.Proofs.SecondRun
import PhpSlim.Proofs.ReportAccount
