import KeyspaceQuery.Main
import KeyspaceQuery.Proofs.Calls.Cursor
import KeyspaceQuery.Proofs.Calls.Progress
import KeyspaceQuery.Proofs.Calls.Resumption
import KeyspaceQuery.Proofs.Calls.Window
import KeyspaceQuery.Proofs.Canonical
import KeyspaceQuery.Proofs.Capability
import KeyspaceQuery.Proofs.Continuation
import KeyspaceQuery.Proofs.Errors.Message
import KeyspaceQuery.Proofs.Journal
import KeyspaceQuery.Proofs.Journal.Attempts
import KeyspaceQuery.Proofs.Lexeme.Offsets
import KeyspaceQuery.Proofs.Lexeme.Strings
import KeyspaceQuery.Proofs.Report
import KeyspaceQuery.Proofs.Spacing
import KeyspaceQuery.Proofs.Trimming.Places
